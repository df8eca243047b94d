import RazorViews.Proofs.Json.Numbers

/-!
# Documents are read as they were written

A document is read back from the text it is written as: `read?_write`.  What this asks of a document
is that its binary64 numbers are finite and above zero, that its whole numbers are short enough to
be read, and that no object has a key twice (`IsReadable`).  Nothing is asked of its texts, which
may hold any characters, nor of how deep it is.

The reader meets what the writer put down: a text character by character (`readText_flatMap`), a
list or an object part by part, each behind the break of line in front of it (`readItems_lines`,
`readMembers_lines`).  What stands behind a document decides nothing, as long as it is not the rest
of a number (`Ends`).

## What is lost

A number without a numeral is written `null`, and so it is read.  A whole number of too many digits
is written, but the document is then not read at all, wherever in it the number stands
(`read?_write_none`).

No carriage return is ever written (`IsRegular.notMem_writeAt`), so a file keeps its lines when they
are read as text.
-/

namespace RazorViews.Json

variable {t rest : Text} {c : Char} {fuel depth : ℕ}

/-! ## Texts -/

theorem readText_short {e : Char} (h : shortEscape? e = some c) (more : Text) :
    readText ('\\' :: e :: more) = (readText more).map fun (t, after) => (c :: t, after) := by
  have hu : e ≠ 'u' := by
    rintro rfl
    cases h
  rw [readText, h]
  · cases readText more <;> rfl
  · intro a b c d rest heq
    exact absurd heq hu

theorem hexUnit?_control : ∀ n < 0x20,
    hexUnit? '0' '0' (hexDigit (n / 16)) (hexDigit (n % 16)) = some n := by
  decide

theorem readText_control (hc : c.toNat < 0x20) (more : Text) :
    readText ("\\u00".toList ++ [hexDigit (c.toNat / 16), hexDigit (c.toNat % 16)] ++ more) =
      (readText more).map fun (t, after) => (c :: t, after) := by
  have hhigh : isHighSurrogate c.toNat = false := by
    simp only [isHighSurrogate, Bool.and_eq_false_iff, decide_eq_false_iff_not]
    omega
  have hlow : isLowSurrogate c.toNat = false := by
    simp only [isLowSurrogate, Bool.and_eq_false_iff, decide_eq_false_iff_not]
    omega
  have htext : "\\u00".toList ++ [hexDigit (c.toNat / 16), hexDigit (c.toNat % 16)] ++ more =
      '\\' :: 'u' :: '0' :: '0' :: hexDigit (c.toNat / 16) :: hexDigit (c.toNat % 16) :: more := rfl
  rw [htext, readText, hexUnit?_control _ hc, Option.bind_eq_bind, Option.bind_some, hhigh, hlow,
    Char.ofNat_toNat]
  cases readText more <;> rfl

theorem readText_plain (hquote : c ≠ '"') (hslash : c ≠ '\\') (hc : ¬ c.toNat < 0x20)
    (more : Text) :
    readText (c :: more) = (readText more).map fun (t, after) => (c :: t, after) := by
  rw [readText]
  · have hplain : ¬ (c == '\\' || decide (c.toNat < 0x20)) = true := by
      simp [hslash, hc]
    rw [if_neg hplain]
    cases readText more <;> rfl
  · exact hquote
  · exact fun _ _ _ _ _ heq => absurd heq hslash
  · exact fun _ _ heq => absurd heq hslash

/-- A character is read as it was written inside a text. -/
theorem readText_escapeChar (c : Char) (more : Text) :
    readText (escapeChar c ++ more) = (readText more).map fun (t, after) => (c :: t, after) := by
  unfold escapeChar
  split
  case h_8 _ hquote hslash _ _ _ _ _ =>
    split
    · rename_i hc
      exact readText_control hc more
    · rename_i hc
      exact readText_plain hquote hslash hc more
  all_goals exact readText_short rfl more

theorem readText_flatMap (t rest : Text) :
    readText (t.flatMap escapeChar ++ '"' :: rest) = some (t, rest) := by
  induction t with
  | nil => rfl
  | cons c t ih =>
    rw [List.flatMap_cons, List.append_assoc, readText_escapeChar, ih, Option.map_some]

/-! ## White space -/

theorem skipGap_newLine (depth : ℕ) (t : Text) : skipGap (newLine depth ++ t) = skipGap t := by
  refine List.dropWhile_append_of_pos fun c hc => ?_
  rcases List.mem_cons.1 hc with rfl | hc
  · decide
  · rw [List.eq_of_mem_replicate hc]
    decide

theorem skipGap_cons (hc : isGap c = false) (t : Text) : skipGap (c :: t) = c :: t :=
  List.dropWhile_cons_of_neg (by simp [hc])

theorem readValue_congr {t u : Text} (h : skipGap t = skipGap u) (fuel : ℕ) :
    readValue fuel t = readValue fuel u := by
  cases fuel with
  | zero => rfl
  | succ fuel => rw [readValue, readValue, h]

theorem skipGap_skipGap (t : Text) : skipGap (skipGap t) = skipGap t :=
  List.dropWhile_idempotent isGap t

theorem readItems_skipGap (fuel : ℕ) (t : Text) :
    readItems fuel (skipGap t) = readItems fuel t := by
  cases fuel with
  | zero => rfl
  | succ fuel => rw [readItems, readItems, readValue_congr (skipGap_skipGap t)]

theorem readMembers_skipGap (fuel : ℕ) (t : Text) :
    readMembers fuel (skipGap t) = readMembers fuel t := by
  cases fuel with
  | zero => rfl
  | succ fuel => rw [readMembers, readMembers, skipGap_skipGap]

/-! ## The readers, by what they meet -/

theorem readValue_text (t rest : Text) :
    readValue (fuel + 1) (writeText t ++ rest) = some (text t, rest) := by
  have hshape : writeText t ++ rest = '"' :: (t.flatMap escapeChar ++ '"' :: rest) := by
    simp [writeText]
  have hquote (u : Text) : readValue (fuel + 1) ('"' :: u) =
      (readText u).map fun (s, after) => (text s, after) := rfl
  rw [hshape, hquote, readText_flatMap, Option.map_some]

theorem readValue_scalar (hgap : isGap c = false) (hc : c ∉ ['"', '[', '\x7b']) (t : Text) :
    readValue (fuel + 1) (c :: t) = readScalar (c :: t) := by
  simp only [List.mem_cons, List.not_mem_nil, or_false, not_or] at hc
  rw [readValue, skipGap_cons hgap]
  split
  · rename_i heq
    exact absurd (List.cons.inj heq).1 hc.1
  · rename_i heq
    exact absurd (List.cons.inj heq).1 hc.2.1
  · rename_i heq
    exact absurd (List.cons.inj heq).1 hc.2.2
  · rfl

theorem readValue_bracket (fuel : ℕ) (t : Text) :
    readValue (fuel + 1) ('[' :: t) =
      match skipGap t with
      | ']' :: after => some (list [], after)
      | first => (readItems fuel first).map fun (items, after) => (list items, after) := rfl

theorem readValue_list (h : ∀ after, skipGap t ≠ ']' :: after) :
    readValue (fuel + 1) ('[' :: t) =
      (readItems fuel t).map fun (items, after) => (list items, after) := by
  rw [readValue_bracket, ← readItems_skipGap fuel t]
  split
  · rename_i heq
    exact absurd heq (h _)
  · rfl

theorem readValue_brace (fuel : ℕ) (t : Text) :
    readValue (fuel + 1) ('\x7b' :: t) =
      match skipGap t with
      | '\x7d' :: after => some (object [], after)
      | first => (readMembers fuel first).map fun (members, after) =>
          (object (members.foldl (fun kept (k, v) => put k v kept) []), after) := rfl

theorem readValue_object (h : ∀ after, skipGap t ≠ '\x7d' :: after) :
    readValue (fuel + 1) ('\x7b' :: t) = (readMembers fuel t).map fun (members, after) =>
      (object (members.foldl (fun kept (k, v) => put k v kept) []), after) := by
  rw [readValue_brace, ← readMembers_skipGap fuel t]
  split
  · rename_i heq
    exact absurd heq (h _)
  · rfl

/-! ## Parts on their lines -/

/-- Parts on lines of their own, parted by commas. -/
def lines (depth : ℕ) (parts : List Text) : Text :=
  Text.join [','] (parts.map fun part => newLine depth ++ part)

theorem lines_singleton (part : Text) : lines depth [part] = newLine depth ++ part := by
  rw [lines, List.map_singleton, Text.join_singleton]

theorem lines_cons_cons (part next : Text) (parts : List Text) :
    lines depth (part :: next :: parts) =
      newLine depth ++ (part ++ ',' :: lines depth (next :: parts)) := by
  simp [lines]

/-- Behind white space the first part comes first. -/
theorem skipGap_lines (part : Text) (parts : List Text) (closing : Text) :
    skipGap (lines depth (part :: parts) ++ closing) =
      skipGap (part ++ if parts = [] then closing else ',' :: (lines depth parts ++ closing)) := by
  cases parts with
  | nil =>
    rw [lines_singleton, List.append_assoc, skipGap_newLine]
    rfl
  | cons next parts =>
    rw [lines_cons_cons, List.append_assoc, skipGap_newLine, List.append_assoc]
    rfl

theorem writeParts_cons (opening closing : Char) (part : Text) (parts : List Text) (rest : Text) :
    writeParts depth opening closing (part :: parts) ++ rest =
      opening :: (lines (depth + 1) (part :: parts) ++ (newLine depth ++ closing :: rest)) := by
  simp [writeParts, lines]

theorem ends_newLine (depth : ℕ) (t : Text) : Ends (newLine depth ++ t) := by
  rintro c hc
  exact .inr (Option.some.inj hc).symm

theorem ends_comma (t : Text) : Ends (',' :: t) := by
  rintro c hc
  exact .inl (Option.some.inj hc).symm

theorem length_newLine (depth : ℕ) : (newLine depth).length = 2 * depth + 1 := by
  simp [newLine]

/-- The document is read back from its text, wherever that stands. -/
def IsReadBack (d : Json) : Prop :=
  ∀ depth fuel rest, Ends rest → 2 * (writeAt depth d).length < fuel →
    readValue fuel (writeAt depth d ++ rest) = some (d, rest)

theorem readItems_last {d : Json} {u : Text} (h : readValue fuel t = some (d, u))
    (hu : skipGap u = ']' :: rest) : readItems (fuel + 1) t = some ([d], rest) := by
  rw [readItems, h, Option.bind_eq_bind, Option.bind_some]
  dsimp only
  rw [hu]
  rfl

theorem readItems_more {d : Json} {u : Text} (h : readValue fuel t = some (d, ',' :: u)) :
    readItems (fuel + 1) t =
      (readItems fuel u).map fun (items, after) => (d :: items, after) := by
  rw [readItems, h, Option.bind_eq_bind, Option.bind_some]
  dsimp only
  rw [skipGap_cons (by decide)]
  cases h : readItems fuel u <;> simp [h]

/-- Items are read back when each of them is. -/
theorem readItems_lines {d : Json} {items : List Json} (hd : IsReadBack d)
    (hitems : ∀ e ∈ items, IsReadBack e) (outer : ℕ)
    (hfuel : 2 * (lines depth (writeItems depth (d :: items))).length ≤ fuel) :
    readItems fuel (lines depth (writeItems depth (d :: items)) ++ (newLine outer ++ ']' :: rest)) =
      some (d :: items, rest) := by
  induction items generalizing d fuel with
  | nil =>
    rw [writeItems, writeItems, lines_singleton] at hfuel ⊢
    rw [List.length_append, length_newLine] at hfuel
    obtain ⟨fuel, rfl⟩ := Nat.exists_eq_succ_of_ne_zero (n := fuel) (by omega)
    rw [List.append_assoc]
    refine readItems_last (u := newLine outer ++ ']' :: rest) ?_ ?_
    · rw [readValue_congr (skipGap_newLine _ _)]
      exact hd depth fuel _ (ends_newLine _ _) (by omega)
    · rw [skipGap_newLine, skipGap_cons (by decide)]
  | cons e items ih =>
    obtain ⟨he, hitems⟩ := List.forall_mem_cons.1 hitems
    rw [writeItems, writeItems, lines_cons_cons, ← writeItems] at hfuel ⊢
    rw [List.length_append, length_newLine, List.length_append, List.length_cons] at hfuel
    obtain ⟨fuel, rfl⟩ := Nat.exists_eq_succ_of_ne_zero (n := fuel) (by omega)
    rw [List.append_assoc, List.append_assoc, List.cons_append, readItems_more,
      ih he hitems (by omega), Option.map_some]
    rw [readValue_congr (skipGap_newLine _ _)]
    exact hd depth fuel _ (ends_comma _) (by omega)

theorem readMembers_quote (fuel : ℕ) (t : Text) :
    readMembers (fuel + 1) ('"' :: t) = (readText t).bind fun (key, rest) =>
      match skipGap rest with
      | ':' :: rest => (readValue fuel rest).bind fun (value, rest) =>
        match skipGap rest with
        | ',' :: more => (readMembers fuel more).bind fun (members, after) =>
            some ((key, value) :: members, after)
        | '\x7d' :: after => some ([(key, value)], after)
        | _ => none
      | _ => none := rfl

/-- A member is its key, and whatever its value is read as. -/
theorem readMembers_key (key t : Text) :
    readMembers (fuel + 1) (writeText key ++ ':' :: t) =
      (readValue fuel t).bind fun (value, rest) =>
        match skipGap rest with
        | ',' :: more => (readMembers fuel more).bind fun (members, after) =>
            some ((key, value) :: members, after)
        | '\x7d' :: after => some ([(key, value)], after)
        | _ => none := by
  have hshape : writeText key ++ ':' :: t = '"' :: (key.flatMap escapeChar ++ '"' :: ':' :: t) := by
    simp [writeText]
  rw [hshape, readMembers_quote, readText_flatMap, Option.bind_some]
  dsimp only
  rw [skipGap_cons (by decide)]
  rfl

theorem readMembers_last {d : Json} {u : Text} (key : Text) (h : readValue fuel t = some (d, u))
    (hu : skipGap u = '\x7d' :: rest) :
    readMembers (fuel + 1) (writeText key ++ ':' :: t) = some ([(key, d)], rest) := by
  rw [readMembers_key, h, Option.bind_some]
  dsimp only
  rw [hu]
  rfl

theorem readMembers_more {d : Json} {u : Text} (key : Text)
    (h : readValue fuel t = some (d, ',' :: u)) :
    readMembers (fuel + 1) (writeText key ++ ':' :: t) =
      (readMembers fuel u).map fun (members, after) => ((key, d) :: members, after) := by
  rw [readMembers_key, h, Option.bind_some]
  dsimp only
  rw [skipGap_cons (by decide)]
  cases hmore : readMembers fuel u <;> simp [hmore]

theorem readMembers_value_none (key : Text) (h : readValue fuel t = none) :
    readMembers (fuel + 1) (writeText key ++ ':' :: t) = none := by
  rw [readMembers_key, h, Option.bind_none]

theorem skipGap_space (t : Text) : skipGap (' ' :: t) = skipGap t := rfl

/-- A member that is read back, on its line in front of others. -/
theorem readMembers_lines_more {d : Json} (key : Text) (hd : IsReadBack d) (next : Text)
    (parts : List Text) (closing : Text) (hfuel : 2 * (writeAt depth d).length < fuel) :
    readMembers (fuel + 1) (lines depth ((writeText key ++ ':' :: ' ' :: writeAt depth d) ::
      next :: parts) ++ closing) =
        (readMembers fuel (lines depth (next :: parts) ++ closing)).map
          fun (members, after) => ((key, d) :: members, after) := by
  rw [lines_cons_cons, List.append_assoc, ← readMembers_skipGap, skipGap_newLine,
    readMembers_skipGap, List.append_assoc, List.append_assoc, List.cons_append, List.cons_append,
    List.cons_append]
  refine readMembers_more key ?_
  rw [readValue_congr (skipGap_space _)]
  exact hd depth fuel _ (ends_comma _) hfuel

/-- Members are read back when the value of each is. -/
theorem readMembers_lines {key : Text} {d : Json} {members : List (Text × Json)}
    (hd : IsReadBack d) (hmembers : ∀ e ∈ members, IsReadBack e.2) (outer : ℕ)
    (hfuel : 2 * (lines depth (writeMembers depth ((key, d) :: members))).length ≤ fuel) :
    readMembers fuel
      (lines depth (writeMembers depth ((key, d) :: members)) ++
        (newLine outer ++ '\x7d' :: rest)) =
        some ((key, d) :: members, rest) := by
  induction members generalizing key d fuel with
  | nil =>
    rw [writeMembers, writeMembers, lines_singleton] at hfuel ⊢
    simp only [List.length_append, List.length_cons, length_newLine] at hfuel
    obtain ⟨fuel, rfl⟩ := Nat.exists_eq_succ_of_ne_zero (n := fuel) (by omega)
    rw [List.append_assoc, List.append_assoc, ← readMembers_skipGap, skipGap_newLine,
      readMembers_skipGap, List.cons_append, List.cons_append]
    refine readMembers_last key (u := newLine outer ++ '\x7d' :: rest) ?_ ?_
    · rw [readValue_congr (skipGap_space _)]
      exact hd depth fuel _ (ends_newLine _ _) (by omega)
    · rw [skipGap_newLine, skipGap_cons (by decide)]
  | cons e members ih =>
    obtain ⟨next, e⟩ := e
    obtain ⟨he, hmembers⟩ := List.forall_mem_cons.1 hmembers
    change IsReadBack e at he
    rw [writeMembers, writeMembers] at hfuel ⊢
    rw [lines_cons_cons, ← writeMembers] at hfuel
    simp only [List.length_append, List.length_cons, length_newLine] at hfuel
    obtain ⟨fuel, rfl⟩ := Nat.exists_eq_succ_of_ne_zero (n := fuel) (by omega)
    rw [readMembers_lines_more key hd _ _ _ (by omega), ← writeMembers,
      ih he hmembers (by omega), Option.map_some]

/-! ## Members under distinct keys -/

theorem put_of_notMem {key : Text} {value : Json} {kept : List (Text × Json)}
    (h : key ∉ kept.map Prod.fst) : put key value kept = kept ++ [(key, value)] := by
  induction kept with
  | nil => rfl
  | cons m kept ih =>
    rw [List.map_cons, List.mem_cons, not_or] at h
    rw [put, if_neg (by simpa using Ne.symm h.1), ih h.2, List.cons_append]

/-- Members under distinct keys are all kept, in their order. -/
theorem foldl_put {members : List (Text × Json)} (kept : List (Text × Json))
    (h : ((kept ++ members).map Prod.fst).Nodup) :
    members.foldl (fun kept (k, v) => put k v kept) kept = kept ++ members := by
  induction members generalizing kept with
  | nil => simp
  | cons m members ih =>
    obtain ⟨key, value⟩ := m
    have hm : key ∉ kept.map Prod.fst := by
      rw [List.map_append, List.nodup_append] at h
      exact fun hmem => h.2.2 _ hmem _ (by simp) rfl
    rw [List.foldl_cons]
    dsimp only
    rw [put_of_notMem hm, ih _ (by simpa using h), List.append_assoc, List.singleton_append]

/-! ## Documents -/

/-- A document that loses nothing when it is written: its binary64 numbers are finite and above
zero, and no object has a key twice.  Its whole numbers have a property that is left open. -/
inductive IsRegular (fits : ℤ → Prop) : Json → Prop where
  | null : IsRegular fits null
  | bool (b : Bool) : IsRegular fits (bool b)
  | whole {n : ℤ} (hn : fits n) : IsRegular fits (number (.whole n))
  | real {x : Float} (hx : Number.IsFinitePositive x) : IsRegular fits (number (.real x))
  | text (t : Text) : IsRegular fits (text t)
  | list {items : List Json} (h : ∀ d ∈ items, IsRegular fits d) : IsRegular fits (list items)
  | object {members : List (Text × Json)} (hkeys : (members.map Prod.fst).Nodup)
      (h : ∀ m ∈ members, IsRegular fits m.2) : IsRegular fits (object members)

/-- A document that is read back from its text: its whole numbers are short enough for that. -/
def IsReadable (d : Json) : Prop := IsRegular IsShort d

variable {fits : ℤ → Prop}

/-- A record with regular members under distinct keys is regular. -/
theorem IsRegular.record {members : List (String × Json)} (hkeys : (members.map Prod.fst).Nodup)
    (h : ∀ m ∈ members, IsRegular fits m.2) : IsRegular fits (record members) := by
  refine .object ?_ (List.forall_mem_map.2 fun m hm => h m hm)
  have hkeys : ((members.map Prod.fst).map String.toList).Nodup :=
    hkeys.map fun _ _ => String.toList_inj.1
  rw [List.map_map] at hkeys ⊢
  exact hkeys

/-- The text begins as a name or a number does. -/
def IsPlain (t : Text) : Prop :=
  ∃ c more, t = c :: more ∧ isGap c = false ∧ c ∉ ['"', '[', ']', '\x7b']

theorem IsLed.isPlain (h : IsLed t) : IsPlain t := by
  obtain ⟨c, more, rfl, hc⟩ := h
  refine ⟨c, more, rfl, ?_, ?_⟩
  · by_contra hgap
    simp only [isGap, Bool.not_eq_false, Bool.or_eq_true, beq_iff_eq] at hgap
    rcases hgap with ((rfl | rfl) | rfl) | rfl <;> exact absurd hc (by decide)
  · simp only [List.mem_cons, List.not_mem_nil, or_false, not_or]
    refine ⟨?_, ?_, ?_, ?_⟩ <;> rintro rfl <;> exact absurd hc (by decide)

theorem isPlain_ofInt (n : ℤ) (rest : Text) : IsPlain (Text.ofInt n ++ rest) := by
  cases n with
  | ofNat n => exact ((isDigits_ofNat n).isLed rest).isPlain
  | negSucc n => exact ⟨'-', Text.ofNat (n + 1) ++ rest, rfl, by decide, by decide⟩

theorem readValue_plain (h : IsPlain t) (hfuel : 0 < fuel) : readValue fuel t = readScalar t := by
  obtain ⟨c, more, rfl, hgap, hc⟩ := h
  obtain ⟨fuel, rfl⟩ := Nat.exists_eq_succ_of_ne_zero hfuel.ne'
  exact readValue_scalar hgap (fun hmem => hc (by simp_all)) more

theorem writeNumber_real {x : Float} (hx : Number.IsFinitePositive x) :
    writeNumber (.real x) = Number.writeFloat .settings x := by
  obtain ⟨S, E, -, hshape⟩ := hx
  rw [writeNumber, hshape]

theorem head?_writeParts (depth : ℕ) (opening closing : Char) (parts : List Text) (rest : Text) :
    (writeParts depth opening closing parts ++ rest).head? = some opening := by
  rw [writeParts]
  split <;> rfl

/-- A document does not begin as a list ends. -/
theorem IsRegular.skipGap_ne {d : Json} (h : IsRegular fits d) (depth : ℕ) (rest after : Text) :
    skipGap (writeAt depth d ++ rest) ≠ ']' :: after := by
  have hhead {t : Text} {c : Char} (ht : t.head? = some c) (hgap : isGap c = false)
      (hc : c ≠ ']') : skipGap t ≠ ']' :: after := by
    obtain ⟨more, rfl⟩ := List.head?_eq_some_iff.1 ht
    rw [skipGap_cons hgap]
    exact fun heq => hc (List.cons.inj heq).1
  have hplain {t : Text} (h : IsPlain t) : skipGap t ≠ ']' :: after := by
    obtain ⟨c, more, rfl, hgap, hc⟩ := h
    refine hhead rfl hgap ?_
    rintro rfl
    exact hc (by decide)
  cases h with
  | null => exact hhead rfl (by decide) (by decide)
  | bool b => cases b <;> exact hhead rfl (by decide) (by decide)
  | @whole n _ => exact hplain (isPlain_ofInt n rest)
  | real hx =>
    rw [writeAt, writeNumber_real hx]
    exact hplain (isLed_writeFloat .settings hx rest).isPlain
  | text t => exact hhead rfl (by decide) (by decide)
  | list h => exact hhead (head?_writeParts ..) (by decide) (by decide)
  | object hkeys h => exact hhead (head?_writeParts ..) (by decide) (by decide)

theorem length_writeParts_cons (opening closing : Char) (part : Text) (parts : List Text) :
    (writeParts depth opening closing (part :: parts)).length =
      (lines (depth + 1) (part :: parts)).length + 2 * depth + 3 := by
  rw [← List.append_nil (writeParts ..), writeParts_cons, List.length_cons, List.length_append,
    List.length_append, length_newLine, List.length_singleton]
  omega

/-- A document is read back from its text, at any depth and whatever stands behind it. -/
theorem IsReadable.isReadBack {d : Json} (h : IsReadable d) : IsReadBack d := by
  induction h with
  | null =>
    intro depth fuel rest _ hfuel
    have hplain : IsPlain (writeAt depth .null ++ rest) := ⟨'n', _, rfl, by decide, by decide⟩
    rw [readValue_plain hplain (by omega)]
    exact readScalar_null rest
  | bool b =>
    intro depth fuel rest _ hfuel
    have hplain : IsPlain (writeAt depth (.bool b) ++ rest) := by
      cases b <;> exact ⟨_, _, rfl, by decide, by decide⟩
    rw [readValue_plain hplain (by omega)]
    exact readScalar_bool b rest
  | @whole n hn =>
    intro depth fuel rest hrest hfuel
    rw [writeAt, writeNumber, readValue_plain (isPlain_ofInt n rest) (by omega),
      readScalar_ofInt n hrest, if_pos hn]
  | real hx =>
    intro depth fuel rest hrest hfuel
    rw [writeAt, writeNumber_real hx,
      readValue_plain (isLed_writeFloat .settings hx rest).isPlain (by omega)]
    exact readScalar_writeFloat (by decide) hx hrest
  | text t =>
    intro depth fuel rest _ hfuel
    obtain ⟨fuel, rfl⟩ := Nat.exists_eq_succ_of_ne_zero (n := fuel) (by omega)
    exact readValue_text t rest
  | @list items h ih =>
    intro depth fuel rest _ hfuel
    obtain ⟨fuel, rfl⟩ := Nat.exists_eq_succ_of_ne_zero (n := fuel) (by omega)
    rw [writeAt] at hfuel ⊢
    cases items with
    | nil => rfl
    | cons d items =>
      rw [writeItems] at hfuel ⊢
      rw [length_writeParts_cons, ← writeItems] at hfuel
      rw [writeParts_cons, ← writeItems, readValue_list, readItems_lines (ih d List.mem_cons_self)
        (fun e he => ih e (List.mem_cons_of_mem d he)) depth (by omega), Option.map_some]
      intro after
      rw [writeItems, skipGap_lines]
      exact (h d List.mem_cons_self).skipGap_ne _ _ _
  | @object members hkeys h ih =>
    intro depth fuel rest _ hfuel
    obtain ⟨fuel, rfl⟩ := Nat.exists_eq_succ_of_ne_zero (n := fuel) (by omega)
    rw [writeAt] at hfuel ⊢
    cases members with
    | nil => rfl
    | cons m members =>
      obtain ⟨key, d⟩ := m
      rw [writeMembers] at hfuel ⊢
      rw [length_writeParts_cons, ← writeMembers] at hfuel
      have hd : IsReadBack d := ih (key, d) List.mem_cons_self
      rw [writeParts_cons, ← writeMembers, readValue_object, readMembers_lines hd
        (fun e he => ih e (List.mem_cons_of_mem _ he)) depth (by omega), Option.map_some]
      · dsimp only
        rw [foldl_put [] hkeys, List.nil_append]
      · intro after heq
        rw [writeMembers, skipGap_lines] at heq
        exact absurd (List.cons.inj heq).1 (by decide)

/-! ## Documents that are refused -/

theorem length_le_lines (depth : ℕ) (part : Text) (parts : List Text) :
    part.length < (lines depth (part :: parts)).length := by
  cases parts with
  | nil =>
    rw [lines_singleton, List.length_append, length_newLine]
    omega
  | cons next parts =>
    simp only [lines_cons_cons, List.length_append, List.length_cons, length_newLine]
    omega

theorem exists_writeMembers (depth : ℕ) (before : List (Text × Json)) (key : Text) (d : Json)
    (after : List (Text × Json)) :
    ∃ k e parts, writeMembers depth (before ++ (key, d) :: after) =
      (writeText k ++ ':' :: ' ' :: writeAt depth e) :: parts := by
  cases before with
  | nil => exact ⟨_, _, _, rfl⟩
  | cons m before => exact ⟨_, _, _, rfl⟩

/-- The document is not read, wherever its text stands. -/
def IsUnread (d : Json) : Prop :=
  ∀ depth fuel rest, Ends rest → 2 * (writeAt depth d).length < fuel →
    readValue fuel (writeAt depth d ++ rest) = none

/-- Members are not read when the value of one of them is not and those in front of it are. -/
theorem readMembers_lines_none {before after : List (Text × Json)} {key : Text} {d : Json}
    (hbefore : ∀ m ∈ before, IsReadBack m.2) (hd : IsUnread d) (outer : ℕ)
    (hfuel : 2 * (lines depth (writeMembers depth (before ++ (key, d) :: after))).length ≤ fuel) :
    readMembers fuel (lines depth (writeMembers depth (before ++ (key, d) :: after)) ++
      (newLine outer ++ '\x7d' :: rest)) = none := by
  induction before generalizing fuel with
  | nil =>
    have hends : Ends (if writeMembers depth after = [] then newLine outer ++ '\x7d' :: rest
        else ',' :: (lines depth (writeMembers depth after) ++
          (newLine outer ++ '\x7d' :: rest))) := by
      split
      · exact ends_newLine _ _
      · exact ends_comma _
    rw [List.nil_append, writeMembers] at hfuel ⊢
    have hpart := length_le_lines depth (writeText key ++ ':' :: ' ' :: writeAt depth d)
      (writeMembers depth after)
    simp only [List.length_append, List.length_cons] at hpart
    obtain ⟨fuel, rfl⟩ := Nat.exists_eq_succ_of_ne_zero (n := fuel) (by omega)
    rw [← readMembers_skipGap, skipGap_lines, readMembers_skipGap, List.append_assoc,
      List.cons_append, List.cons_append]
    refine readMembers_value_none key ?_
    rw [readValue_congr (skipGap_space _)]
    exact hd depth fuel _ hends (by omega)
  | cons m before ih =>
    obtain ⟨k, e⟩ := m
    obtain ⟨he, hbefore⟩ := List.forall_mem_cons.1 hbefore
    change IsReadBack e at he
    obtain ⟨_, _, parts, hparts⟩ := exists_writeMembers depth before key d after
    rw [List.cons_append, writeMembers, hparts] at hfuel ⊢
    rw [lines_cons_cons, ← hparts] at hfuel
    simp only [List.length_append, List.length_cons, length_newLine] at hfuel
    obtain ⟨fuel, rfl⟩ := Nat.exists_eq_succ_of_ne_zero (n := fuel) (by omega)
    rw [readMembers_lines_more k he _ _ _ (by omega), ← hparts, ih hbefore (by omega),
      Option.map_none]

/-- A document in which a whole number is too long to be read; what stands in front of it on the way
there is readable. -/
inductive IsRefused : Json → Prop where
  | whole {n : ℤ} (hn : ¬ IsShort n) : IsRefused (number (.whole n))
  | member (before : List (Text × Json)) {key : Text} {d : Json} (after : List (Text × Json))
      (hbefore : ∀ m ∈ before, IsReadable m.2) (hd : IsRefused d) :
      IsRefused (object (before ++ (key, d) :: after))

theorem IsRefused.isUnread {d : Json} (h : IsRefused d) : IsUnread d := by
  induction h with
  | @whole n hn =>
    intro depth fuel rest hrest hfuel
    rw [writeAt, writeNumber, readValue_plain (isPlain_ofInt n rest) (by omega),
      readScalar_ofInt n hrest, if_neg hn]
  | @member before key d after hbefore hd ih =>
    intro depth fuel rest _ hfuel
    obtain ⟨k, e, parts, hparts⟩ := exists_writeMembers (depth + 1) before key d after
    obtain ⟨fuel, rfl⟩ := Nat.exists_eq_succ_of_ne_zero (n := fuel) (by omega)
    rw [writeAt, hparts] at hfuel ⊢
    rw [length_writeParts_cons, ← hparts] at hfuel
    rw [writeParts_cons, ← hparts, readValue_object, readMembers_lines_none
      (fun m hm => (hbefore m hm).isReadBack) ih depth (by omega), Option.map_none]
    intro more heq
    rw [hparts, skipGap_lines] at heq
    exact absurd (List.cons.inj heq).1 (by decide)

/-! ## Carriage returns -/

theorem notMem_hexDigit : ∀ n < 0x20, '\r' ∉ [hexDigit (n / 16), hexDigit (n % 16)] := by
  decide

theorem notMem_escapeChar (c : Char) : '\r' ∉ escapeChar c := by
  unfold escapeChar
  split
  case h_8 _ _ _ _ _ _ hreturn _ =>
    split
    · rename_i hc
      rw [List.mem_append, not_or]
      exact ⟨by decide, notMem_hexDigit _ hc⟩
    · exact fun hmem => hreturn (List.mem_singleton.1 hmem).symm
  all_goals decide

theorem notMem_writeText (t : Text) : '\r' ∉ writeText t := by
  simp [writeText, notMem_escapeChar]

theorem notMem_newLine (depth : ℕ) : '\r' ∉ newLine depth := by
  simp [newLine]

theorem notMem_lines {parts : List Text} (h : ∀ part ∈ parts, '\r' ∉ part) :
    '\r' ∉ lines depth parts := by
  induction parts with
  | nil => exact List.not_mem_nil
  | cons part parts ih =>
    obtain ⟨hpart, hparts⟩ := List.forall_mem_cons.1 h
    cases parts with
    | nil =>
      rw [lines_singleton, List.mem_append, not_or]
      exact ⟨notMem_newLine depth, hpart⟩
    | cons next parts =>
      rw [lines_cons_cons, List.mem_append, List.mem_append, List.mem_cons, not_or, not_or, not_or]
      exact ⟨notMem_newLine depth, hpart, by decide, ih hparts⟩

theorem notMem_writeParts {opening closing : Char} {parts : List Text} (hopening : '\r' ≠ opening)
    (hclosing : '\r' ≠ closing) (h : ∀ part ∈ parts, '\r' ∉ part) :
    '\r' ∉ writeParts depth opening closing parts := by
  cases parts with
  | nil => simp [writeParts, hopening, hclosing]
  | cons part parts =>
    rw [← List.append_nil (writeParts ..), writeParts_cons, List.mem_cons, List.mem_append,
      List.mem_append, List.mem_singleton, not_or, not_or, not_or]
    exact ⟨hopening, notMem_lines h, notMem_newLine depth, hclosing⟩

theorem writeItems_eq_map (depth : ℕ) (items : List Json) :
    writeItems depth items = items.map (writeAt depth) := by
  induction items with
  | nil => rfl
  | cons d items ih => rw [writeItems, ih, List.map_cons]

theorem writeMembers_eq_map (depth : ℕ) (members : List (Text × Json)) :
    writeMembers depth members =
      members.map fun m => writeText m.1 ++ ':' :: ' ' :: writeAt depth m.2 := by
  induction members with
  | nil => rfl
  | cons m members ih =>
    obtain ⟨key, d⟩ := m
    rw [writeMembers, ih, List.map_cons]

theorem notMem_writeFloat {x : Float} (hx : Number.IsFinitePositive x) :
    '\r' ∉ Number.writeFloat .settings x := by
  obtain ⟨n, htext, hproper, -, -, -⟩ := exists_numeral_writeFloat .settings hx
  rw [htext]
  exact fun hmem => (Numeral.mem_written hproper hmem).elim (by decide) (by decide)

theorem notMem_ofNat (n : ℕ) : '\r' ∉ Text.ofNat n :=
  fun hmem => absurd ((isDigits_ofNat n).isDigit _ hmem) (by decide)

theorem notMem_ofInt (n : ℤ) : '\r' ∉ Text.ofInt n := by
  cases n with
  | ofNat n => exact notMem_ofNat n
  | negSucc n =>
    rw [Text.ofInt, List.mem_cons, not_or]
    exact ⟨by decide, notMem_ofNat (n + 1)⟩

/-- No carriage return is written, not even for one inside a text. -/
theorem IsRegular.notMem_writeAt {d : Json} (h : IsRegular fits d) (depth : ℕ) :
    '\r' ∉ writeAt depth d := by
  induction h generalizing depth with
  | null =>
    rw [writeAt]
    decide
  | bool b =>
    rw [writeAt]
    cases b <;> decide
  | @whole n _ => exact notMem_ofInt n
  | real hx =>
    rw [writeAt, writeNumber_real hx]
    exact notMem_writeFloat hx
  | text t => exact notMem_writeText t
  | @list items _ ih =>
    rw [writeAt, writeItems_eq_map]
    refine notMem_writeParts (by decide) (by decide) (List.forall_mem_map.2 fun d hd => ?_)
    exact ih d hd (depth + 1)
  | @object members _ _ ih =>
    rw [writeAt, writeMembers_eq_map]
    refine notMem_writeParts (by decide) (by decide) (List.forall_mem_map.2 fun m hm => ?_)
    rw [List.mem_append, List.mem_cons, List.mem_cons, not_or, not_or, not_or]
    exact ⟨notMem_writeText m.1, by decide, by decide, ih m hm (depth + 1)⟩

/-! ## Whole texts -/

/-- A document that can be read back is read back from what it is written as. -/
theorem read?_write {d : Json} (h : IsReadable d) : read? d.write = some d := by
  have hread : readValue (2 * d.write.length + 2) (d.write ++ []) = some (d, []) :=
    h.isReadBack 0 _ [] (by simp [Ends]) (by rw [write]; omega)
  rw [List.append_nil] at hread
  rw [read?, hread]
  rfl

/-- A document with too long a whole number is not read from what it is written as. -/
theorem read?_write_none {d : Json} (h : IsRefused d) : read? d.write = none := by
  have hread : readValue (2 * d.write.length + 2) (d.write ++ []) = none :=
    h.isUnread 0 _ [] (by simp [Ends]) (by rw [write]; omega)
  rw [List.append_nil] at hread
  rw [read?, hread]

end RazorViews.Json
