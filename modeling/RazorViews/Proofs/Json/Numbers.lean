import RazorViews.Json.Reader
import RazorViews.Json.Writer
import RazorViews.Proofs.Number.Shortest
import RazorViews.Proofs.Property.Bounds

/-!
# Numbers are read as they were written

A numeral with a point or an exponent is read as the binary64 number nearest to its decimal
(`readMagnitude_numeral`).  In whatever style a decimal is written, with zeros behind it, with a
point among its digits or with an exponent, its numeral stands for the same decimal again
(`exists_numeral`).  So a positive binary64 number is read back from its shortest decimal
(`readScalar_writeFloat`): that this decimal is nearest to no other number is a fact about numbers
and not about texts (`nearest_shortest`).

A whole number is read back as it was written, unless its text is too long (`IsShort`,
`readScalar_ofInt`).  The length of a numeral with a point is limited as well, in front of the
point; no style writes so many digits there.

Zero and negative binary64 numbers have no part in this: no field of the settings admits them.
-/

namespace RazorViews.Json

variable {ds rest t : Text} {c : Char} {negative : Bool} {v m : ℕ}

/-- What may stand behind a document: nothing, or what parts it from the next one. -/
def Ends (rest : Text) : Prop := ∀ c ∈ rest.head?, c = ',' ∨ c = '\n'

/-! ## Digits -/

/-- All characters are ASCII digits, and there are some. -/
structure IsDigits (ds : Text) : Prop where
  ne_nil : ds ≠ []
  isDigit : ∀ c ∈ ds, c.isDigit = true

theorem isDigits_ofNat (n : ℕ) : IsDigits (Text.ofNat n) where
  ne_nil := Nat.toDigits_ne_nil
  isDigit _ hc := Nat.isDigit_of_mem_toDigits (by norm_num) (by norm_num) hc

theorem IsDigits.digits?_eq (h : IsDigits ds) :
    Number.digits? ds = some (ds.map fun c => c.toNat - '0'.toNat) :=
  Number.digits?_digits h.ne_nil h.isDigit

theorem valueOnto_map (v : ℕ) (ds : Text) :
    Number.valueOnto v (ds.map fun c => c.toNat - '0'.toNat) = Nat.ofDigitChars 10 ds v := by
  rw [Number.valueOnto, List.foldl_map, Nat.ofDigitChars]

theorem splitDigits_append (hds : ∀ c ∈ ds, c.isDigit = true)
    (hrest : ∀ c ∈ rest.head?, c.isDigit = false) : splitDigits (ds ++ rest) = (ds, rest) := by
  rw [splitDigits, List.takeWhile_append_of_pos hds, List.dropWhile_append_of_pos hds]
  cases rest with
  | nil => simp
  | cons c rest =>
    have hc := hrest c rfl
    rw [List.takeWhile_cons_of_neg (by simp [hc]), List.dropWhile_cons_of_neg (by simp [hc]),
      List.append_nil]

theorem Ends.not_digit (h : Ends rest) : ∀ c ∈ rest.head?, c.isDigit = false := by
  intro c hc
  rcases h c hc with rfl | rfl <;> decide

theorem head?_ofNat (hm : 0 < m) : (Text.ofNat m).head? ≠ some '0' := by
  rw [Text.ofNat]
  induction m using Nat.strong_induction_on with
  | _ m ih =>
    by_cases hlt : m < 10
    · have hall : ∀ m < 10, 0 < m → (Nat.toDigits 10 m).head? ≠ some '0' := by decide
      exact hall m hlt hm
    · rw [Nat.toDigits_of_base_le (by norm_num) (by omega),
        List.head?_append_of_ne_nil _ Nat.toDigits_ne_nil]
      exact ih (m / 10) (by omega) (by omega)

/-- Digits that do not begin with a zero do not begin with the value zero. -/
theorem IsDigits.not_zero_in_front (h : IsDigits ds)
    (hfirst : ds.head? ≠ some '0' ∨ ds.length = 1) :
    ¬ (((ds.map fun c => c.toNat - '0'.toNat).head? == some 0) &&
      (ds.map fun c => c.toNat - '0'.toNat).length != 1) = true := by
  obtain ⟨c, more, rfl⟩ := List.exists_cons_of_ne_nil h.ne_nil
  rw [Bool.and_eq_true, beq_iff_eq, bne_iff_ne, List.length_map]
  rintro ⟨hzero, hlength⟩
  refine (hfirst.resolve_right hlength) ?_
  rw [List.map_cons, List.head?_cons, Option.some_inj] at hzero
  have hdigit : c.isDigit = true := h.isDigit c List.mem_cons_self
  have hnat : 48 ≤ c.toNat := by
    simp only [Char.isDigit, Bool.and_eq_true, decide_eq_true_eq] at hdigit
    exact hdigit.1
  have hc : c.toNat = 48 := by
    change c.toNat - 48 = 0 at hzero
    omega
  rw [List.head?_cons, ← Char.ofNat_toNat c, hc]

/-- Digits that are not too many may stand in front of a point. -/
theorem not_isOverlong (h : ds.length ≤ Number.maxDigits) :
    ¬ Number.isOverlong false ds = true := by
  simpa [Number.isOverlong] using h

/-! ## Numerals -/

/-- A numeral with a point or an exponent. -/
structure Numeral where
  /-- The digits in front of the point. -/
  front : Text
  /-- The digits behind the point; without any, there is no point. -/
  places : Text
  /-- The sign and the digits of the exponent, if there is one. -/
  power : Option (Text × Text)

namespace Numeral

/-- The point and the digits behind it, as they are written. -/
def point (n : Numeral) : Text := if n.places = [] then [] else '.' :: n.places

/-- The exponent as it is written. -/
def powerText (n : Numeral) : Text :=
  match n.power with
  | none => []
  | some (sign, ds) => 'e' :: (sign ++ ds)

/-- The numeral as it is written. -/
def written (n : Numeral) : Text := n.front ++ (n.point ++ n.powerText)

/-- The digits of the numeral as one number. -/
def digits (n : Numeral) : ℕ := Nat.ofDigitChars 10 (n.front ++ n.places) 0

/-- The value of the exponent. -/
def exponent (n : Numeral) : ℤ :=
  match n.power with
  | none => 0
  | some (sign, ds) => Number.signed (sign == ['-']) (Nat.ofDigitChars 10 ds 0)

/-- The numeral is one of the grammar. -/
structure IsProper (n : Numeral) : Prop where
  front : IsDigits n.front
  first : n.front.head? ≠ some '0' ∨ n.front.length = 1
  places : ∀ c ∈ n.places, c.isDigit = true
  power : ∀ p ∈ n.power, p.1 ∈ [[], ['-'], ['+']] ∧ IsDigits p.2

/-- The numeral has a point or an exponent. -/
def IsReal (n : Numeral) : Prop := n.places ≠ [] ∨ n.power ≠ none

variable {n : Numeral}

theorem head?_powerText (n : Numeral) (hrest : Ends rest) :
    ∀ c ∈ (n.powerText ++ rest).head?, c = 'e' ∨ c = ',' ∨ c = '\n' := by
  intro c hc
  rw [powerText] at hc
  split at hc
  · exact .inr (hrest c hc)
  · exact .inl (Option.some.inj hc).symm

theorem readPlaces_eq (h : n.IsProper) (hrest : Ends rest) :
    readPlaces (n.point ++ (n.powerText ++ rest)) =
      some (if n.places = [] then none else some n.places, n.powerText ++ rest) := by
  have hhead := n.head?_powerText hrest
  rw [point]
  split
  · rw [List.nil_append]
    cases htext : n.powerText ++ rest with
    | nil => rfl
    | cons c more =>
      rw [htext] at hhead
      have hc : c ≠ '.' := by
        rintro rfl
        exact absurd (hhead '.' rfl) (by decide)
      exact readPlaces.eq_2 _ fun _ heq => hc (List.cons.inj heq).1
  · rename_i hne
    have hdigit : ∀ c ∈ (n.powerText ++ rest).head?, c.isDigit = false := by
      intro c hc
      rcases hhead c hc with rfl | rfl | rfl <;> decide
    rw [List.cons_append, readPlaces, splitDigits_append h.places hdigit]
    dsimp only
    rw [if_neg (by simpa using hne)]

theorem splitSign_eq {sign : Text} (hsign : sign ∈ [[], ['-'], ['+']]) (hds : IsDigits ds)
    (rest : Text) :
    Number.splitSign (sign ++ ds ++ rest) = (sign == ['-'], ds ++ rest) := by
  simp only [List.mem_cons, List.not_mem_nil, or_false] at hsign
  rcases hsign with rfl | rfl | rfl
  · obtain ⟨c, ds, rfl⟩ := List.exists_cons_of_ne_nil hds.ne_nil
    have hc := hds.isDigit c List.mem_cons_self
    refine Number.splitSign.eq_3 _ (fun _ heq => ?_) fun _ heq => ?_
    · rw [(List.cons.inj heq).1] at hc
      exact absurd hc (by decide)
    · rw [(List.cons.inj heq).1] at hc
      exact absurd hc (by decide)
  · rfl
  · rfl

theorem readPower_eq (h : n.IsProper) (hrest : Ends rest) :
    readPower (n.powerText ++ rest) = some (n.power.map fun _ => n.exponent, rest) := by
  rw [powerText, exponent]
  cases hpower : n.power with
  | none =>
    cases rest with
    | nil => rfl
    | cons c rest =>
      have hc : ¬ (c == 'e' || c == 'E') = true := by
        rcases hrest c rfl with rfl | rfl <;> decide
      rw [List.nil_append, readPower, if_neg hc]
      rfl
  | some p =>
    obtain ⟨sign, ds⟩ := p
    obtain ⟨hsign, hds⟩ := h.power _ hpower
    dsimp only
    rw [List.cons_append, readPower, if_pos (by decide), splitSign_eq hsign hds]
    dsimp only
    rw [splitDigits_append hds.isDigit hrest.not_digit]
    dsimp only
    rw [hds.digits?_eq, Option.map_some, valueOnto_map]
    rfl

theorem splitDigits_written (h : n.IsProper) (hrest : Ends rest) :
    splitDigits (n.written ++ rest) = (n.front, n.point ++ (n.powerText ++ rest)) := by
  rw [written, List.append_assoc, List.append_assoc]
  refine splitDigits_append h.front.isDigit fun c hc => ?_
  rw [point] at hc
  split at hc
  · rcases n.head?_powerText hrest c hc with rfl | rfl | rfl <;> decide
  · obtain rfl := Option.some.inj hc
    decide

/-- The characters of a numeral. -/
theorem mem_written (h : n.IsProper) (hc : c ∈ n.written) :
    c.isDigit = true ∨ c ∈ ['.', 'e', '-', '+'] := by
  rw [written, List.mem_append, List.mem_append, point, powerText] at hc
  rcases hc with hc | hc | hc
  · exact .inl (h.front.isDigit c hc)
  · split at hc
    · exact absurd hc List.not_mem_nil
    · rcases List.mem_cons.1 hc with rfl | hc
      · exact .inr (by decide)
      · exact .inl (h.places c hc)
  · split at hc
    · exact absurd hc List.not_mem_nil
    · rename_i sign ds hpower
      obtain ⟨hsign, hds⟩ := h.power _ hpower
      rcases List.mem_cons.1 hc with rfl | hc
      · exact .inr (by decide)
      · rcases List.mem_append.1 hc with hc | hc
        · simp only [List.mem_cons, List.not_mem_nil, or_false] at hsign
          rcases hsign with rfl | rfl | rfl
          · exact absurd hc List.not_mem_nil
          · obtain rfl := List.mem_singleton.1 hc
            exact .inr (by decide)
          · obtain rfl := List.mem_singleton.1 hc
            exact .inr (by decide)
        · exact .inl (hds.isDigit c hc)

/-- A numeral is read as the binary64 number nearest to its decimal. -/
theorem readMagnitude_numeral (h : n.IsProper) (hreal : n.IsReal)
    (hshort : n.front.length ≤ Number.maxDigits) (hrest : Ends rest) :
    readMagnitude false (n.written ++ rest) =
      some (.real (Number.nearest n.digits (n.exponent - n.places.length)), rest) := by
  have hnone : ((if n.places = [] then none else some n.places).isNone &&
      (n.power.map fun _ => n.exponent).isNone) = false := by
    rw [Bool.and_eq_false_iff, Option.isNone_map]
    rcases hreal with hplaces | hpower
    · left
      rw [if_neg hplaces]
      rfl
    · right
      rwa [Option.isNone_eq_false_iff, Option.isSome_iff_ne_none]
  have hplaces : (if n.places = [] then none else some n.places).getD [] = n.places := by
    split
    · rename_i hnil
      exact hnil.symm
    · rfl
  have hdigits : Number.valueOnto (Number.valueOnto 0 (n.front.map fun c => c.toNat - '0'.toNat))
      ((Number.digits? n.places).getD []) = n.digits := by
    rw [valueOnto_map, digits, Nat.ofDigitChars_append]
    by_cases hnil : n.places = []
    · rw [hnil]
      rfl
    · rw [IsDigits.digits?_eq ⟨hnil, h.places⟩, Option.getD_some, valueOnto_map]
  have hexponent : (n.power.map fun _ => n.exponent).getD 0 = n.exponent := by
    rw [exponent]
    cases n.power with
    | none => rfl
    | some p => rfl
  simp only [readMagnitude, splitDigits_written h hrest, h.front.digits?_eq, Option.bind_eq_bind,
    Option.bind_some, if_neg (h.front.not_zero_in_front h.first), if_neg (not_isOverlong hshort),
    readPlaces_eq h hrest, readPower_eq h hrest, hnone, hplaces, hdigits, hexponent,
    Bool.false_eq_true, if_false]

end Numeral

/-! ## Decimals as they are written -/

open Number

variable {d : Decimal}

/-- The text is a numeral for the decimal. -/
structure IsNumeralOf (n : Numeral) (d : Decimal) (t : Text) : Prop where
  text : t = n.written
  isProper : n.IsProper
  isReal : n.IsReal
  value : (n.digits : ℚ) * 10 ^ (n.exponent - n.places.length) = d.toRat

theorem ofDigitChars_ofNat (n : ℕ) : Nat.ofDigitChars 10 (Text.ofNat n) 0 = n :=
  Nat.ofDigitChars_ten_toDigits

theorem isDigit_of_mem_zeros {k : ℕ} (hc : c ∈ List.replicate k '0') : c.isDigit = true := by
  rw [List.eq_of_mem_replicate hc]
  decide

/-- Zeros in front of a numeral do not count. -/
theorem ofDigitChars_zeros (k n : ℕ) :
    Nat.ofDigitChars 10 (List.replicate k '0' ++ Text.ofNat n) 0 = n := by
  rw [Nat.ofDigitChars_append, Nat.ofDigitChars_replicate_zero, mul_zero, ofDigitChars_ofNat]

theorem isNumeralOf_whole (hd : 0 < d.digits) (he : 0 ≤ d.exponent) :
    IsNumeralOf ⟨Text.ofNat d.digits ++ List.replicate d.exponent.toNat '0', ['0'], none⟩ d
      (Text.ofNat d.digits ++ List.replicate d.exponent.toNat '0' ++ ['.', '0']) where
  text := by simp [Numeral.written, Numeral.point, Numeral.powerText]
  isReal := .inl (List.cons_ne_nil _ _)
  isProper := by
    have hdigits := isDigits_ofNat d.digits
    refine ⟨⟨?_, fun c hc => ?_⟩, .inl ?_, fun c hc => ?_, by simp⟩
    · exact List.append_ne_nil_of_left_ne_nil hdigits.ne_nil _
    · exact (List.mem_append.1 hc).elim (hdigits.isDigit c) isDigit_of_mem_zeros
    · rw [List.head?_append_of_ne_nil _ hdigits.ne_nil]
      exact head?_ofNat hd
    · rw [List.mem_singleton.1 hc]
      decide
  value := by
    have hplace : Nat.ofDigitChars 10 ['0'] (10 ^ d.exponent.toNat * d.digits) =
        10 * (10 ^ d.exponent.toNat * d.digits) := rfl
    have hcast : (10 : ℚ) ^ d.exponent = 10 ^ d.exponent.toNat := by
      rw [← zpow_natCast, Int.toNat_of_nonneg he]
    rw [Numeral.digits, Nat.ofDigitChars_append, Nat.ofDigitChars_append, ofDigitChars_ofNat,
      Nat.ofDigitChars_replicate_zero, hplace, Numeral.exponent, Decimal.toRat, hcast]
    push_cast
    norm_num
    ring

theorem isNumeralOf_parted (hd : 0 < d.digits) (he : d.exponent < 0) {k : ℕ}
    (hk : k + (-d.exponent).toNat = (Text.ofNat d.digits).length) (hpos : 0 < k) :
    IsNumeralOf ⟨(Text.ofNat d.digits).take k, (Text.ofNat d.digits).drop k, none⟩ d
      ((Text.ofNat d.digits).take k ++ '.' :: (Text.ofNat d.digits).drop k) := by
  have hdigits := isDigits_ofNat d.digits
  have hlength : ((Text.ofNat d.digits).drop k).length = (-d.exponent).toNat := by
    rw [List.length_drop]
    omega
  have hdrop : (Text.ofNat d.digits).drop k ≠ [] := by
    rw [← List.length_pos_iff, hlength]
    omega
  have htake : (Text.ofNat d.digits).take k ≠ [] := by
    rw [← List.length_pos_iff, List.length_take]
    omega
  refine ⟨?_, ⟨⟨htake, fun c hc => hdigits.isDigit c (List.mem_of_mem_take hc)⟩, .inl ?_,
    fun c hc => hdigits.isDigit c (List.mem_of_mem_drop hc), by simp⟩, .inl hdrop, ?_⟩
  · simp only [Numeral.written, Numeral.point, Numeral.powerText, if_neg hdrop, List.append_nil]
  · rw [List.head?_take, if_neg hpos.ne']
    exact head?_ofNat hd
  · rw [Numeral.digits, List.take_append_drop, ofDigitChars_ofNat, Numeral.exponent, hlength,
      Decimal.toRat]
    dsimp only
    congr 2
    omega

theorem isNumeralOf_small (he : d.exponent < 0) {k : ℕ}
    (hk : k + (Text.ofNat d.digits).length = (-d.exponent).toNat) :
    IsNumeralOf ⟨['0'], List.replicate k '0' ++ Text.ofNat d.digits, none⟩ d
      ('0' :: '.' :: (List.replicate k '0' ++ Text.ofNat d.digits)) := by
  have hdigits := isDigits_ofNat d.digits
  have hne : List.replicate k '0' ++ Text.ofNat d.digits ≠ [] :=
    List.append_ne_nil_of_right_ne_nil _ hdigits.ne_nil
  refine ⟨?_, ⟨⟨List.cons_ne_nil _ _, fun c hc => ?_⟩, .inr rfl, fun c hc => ?_, by simp⟩,
    .inl hne, ?_⟩
  · simp only [Numeral.written, Numeral.point, Numeral.powerText, if_neg hne, List.append_nil,
      List.singleton_append]
  · rw [List.mem_singleton.1 hc]
    decide
  · exact (List.mem_append.1 hc).elim isDigit_of_mem_zeros (hdigits.isDigit c)
  · have hzeros := ofDigitChars_zeros (k + 1) d.digits
    rw [List.replicate_succ] at hzeros
    rw [Numeral.digits, List.singleton_append, ← List.cons_append, hzeros, Numeral.exponent,
      List.length_append, List.length_replicate, Decimal.toRat]
    dsimp only
    congr 2
    omega

theorem isNumeralOf_scientific (style : Style) :
    ∃ n, IsNumeralOf n d (d.scientific style) ∧
      (n.front.length = 1 ∨ (n.front.length : ℤ) ≤ style.greatest + 1) := by
  have hdigits := isDigits_ofNat d.digits
  obtain ⟨c, more, htext⟩ := List.exists_cons_of_ne_nil hdigits.ne_nil
  let power : ℤ := d.exponent + (Text.ofNat d.digits).length - 1
  let sign : Text := if power < 0 then ['-'] else if style.plus then ['+'] else []
  let places := Text.ofNat power.natAbs
  let zeros := List.replicate (style.exponentDigits - places.length) '0'
  have hplaces := isDigits_ofNat power.natAbs
  have hsign : sign ∈ [[], ['-'], ['+']] := by
    simp only [sign]
    split
    · simp
    · split <;> simp
  have hexponent : signed (sign == ['-']) (Nat.ofDigitChars 10 (zeros ++ places) 0) = power := by
    rw [ofDigitChars_zeros]
    simp only [sign]
    split
    · simp only [signed, beq_self_eq_true, if_true]
      omega
    · split
      · simp only [signed, show ((['+'] : Text) == ['-']) = false from rfl, Bool.false_eq_true,
          if_false]
        omega
      · simp only [signed, show (([] : Text) == ['-']) = false from rfl, Bool.false_eq_true,
          if_false]
        omega
  have hwritten : d.scientific style =
      Numeral.written ⟨[c], more, some (sign, zeros ++ places)⟩ := by
    rw [Decimal.scientific, Numeral.written, Numeral.point, Numeral.powerText, List.append_assoc,
      List.append_assoc]
    dsimp only
    split
    · rename_i heq
      exact absurd (htext.symm.trans heq) (List.cons_ne_nil _ _)
    · rename_i heq
      obtain ⟨rfl, rfl⟩ := List.cons.inj (htext.symm.trans heq)
      rfl
    · rename_i hmore heq
      obtain ⟨rfl, rfl⟩ := List.cons.inj (htext.symm.trans heq)
      rw [if_neg hmore]
      rfl
  refine ⟨⟨[c], more, some (sign, zeros ++ places)⟩, ⟨?_, ?_, .inr (by simp), ?_⟩, .inl rfl⟩
  · exact hwritten
  · refine ⟨⟨List.cons_ne_nil _ _, fun e he => ?_⟩, .inr rfl, fun e he => ?_, ?_⟩
    · exact hdigits.isDigit e (htext ▸ List.mem_singleton.1 he ▸ List.mem_cons_self)
    · exact hdigits.isDigit e (htext ▸ List.mem_cons_of_mem c he)
    · intro p hp
      obtain rfl := Option.some.inj hp
      refine ⟨hsign, List.append_ne_nil_of_right_ne_nil _ hplaces.ne_nil, fun e he => ?_⟩
      exact (List.mem_append.1 he).elim isDigit_of_mem_zeros (hplaces.isDigit e)
  · have hcount : (Text.ofNat d.digits).length = more.length + 1 := by
      rw [htext]
      rfl
    rw [Numeral.digits, List.singleton_append, ← htext, ofDigitChars_ofNat, Numeral.exponent]
    dsimp only
    rw [hexponent, Decimal.toRat]
    congr 2
    omega

/-- A decimal is written as a numeral for it, with no more digits in front of the point than its
style writes. -/
theorem exists_numeral (style : Style) (hd : 0 < d.digits) :
    ∃ n, IsNumeralOf n d (d.write style) ∧
      (n.front.length = 1 ∨ (n.front.length : ℤ) ≤ style.greatest + 1) := by
  rw [Decimal.write]
  split
  · rename_i hpower
    simp only [Bool.and_eq_true, decide_eq_true_eq] at hpower
    rw [Decimal.positional]
    dsimp only
    split
    · rename_i he
      refine ⟨_, isNumeralOf_whole hd he, .inr ?_⟩
      simp only [List.length_append, List.length_replicate]
      omega
    · split
      · refine ⟨_, isNumeralOf_parted hd (by omega) (by omega) (by omega), .inr ?_⟩
        simp only [List.length_take]
        omega
      · exact ⟨_, isNumeralOf_small (by omega) (by omega), .inl rfl⟩
  · exact isNumeralOf_scientific style

/-! ## Numbers as they are written -/

variable {x : Float}

/-- The text begins with a digit. -/
def IsLed (t : Text) : Prop := ∃ c more, t = c :: more ∧ c.isDigit = true

theorem IsDigits.isLed (h : IsDigits ds) (rest : Text) : IsLed (ds ++ rest) := by
  obtain ⟨c, more, rfl⟩ := List.exists_cons_of_ne_nil h.ne_nil
  exact ⟨c, more ++ rest, rfl, h.isDigit c List.mem_cons_self⟩

theorem exists_numeral_writeFloat (style : Style) (hx : IsFinitePositive x) :
    ∃ n : Numeral, writeFloat style x = n.written ∧ n.IsProper ∧ n.IsReal ∧
      (n.front.length = 1 ∨ (n.front.length : ℤ) ≤ style.greatest + 1) ∧
      nearest n.digits (n.exponent - n.places.length) = x := by
  obtain ⟨S, E, hS, hshape⟩ := hx
  have hnormal := isNormal_of_shape hshape hS
  have hdigits : 0 < (shortest S E).digits := by
    refine Nat.pos_of_ne_zero fun hzero => ?_
    have hpos := (roundsTo_shortest hnormal).pos hS
    rw [Decimal.toRat, hzero, Nat.cast_zero, zero_mul] at hpos
    exact lt_irrefl 0 hpos
  obtain ⟨n, hn, hfront⟩ := exists_numeral style hdigits
  refine ⟨n, ?_, hn.isProper, hn.isReal, hfront, ?_⟩
  · rw [writeFloat, hshape]
    simp only [beq_iff_eq, hS.ne', Bool.false_eq_true, if_false, List.nil_append, hn.text]
  · rw [nearest_shortest hnormal hn.value, ofParts_of_shape hshape]

theorem isLed_writeFloat (style : Style) (hx : IsFinitePositive x) (rest : Text) :
    IsLed (writeFloat style x ++ rest) := by
  obtain ⟨n, htext, hproper, -, -, -⟩ := exists_numeral_writeFloat style hx
  rw [htext, Numeral.written, List.append_assoc]
  exact hproper.front.isLed _

/-- A finite binary64 number above zero is read as it was written, in any style that writes no
digits by the thousand. -/
theorem readMagnitude_writeFloat {style : Style} (hstyle : style.greatest < maxDigits)
    (hx : IsFinitePositive x) (hrest : Ends rest) :
    readMagnitude false (writeFloat style x ++ rest) = some (.real x, rest) := by
  obtain ⟨n, htext, hproper, hreal, hfront, hnearest⟩ := exists_numeral_writeFloat style hx
  have hshort : n.front.length ≤ maxDigits := by
    have hone : 1 ≤ maxDigits := by decide
    omega
  rw [htext, Numeral.readMagnitude_numeral hproper hreal hshort hrest, hnearest]

/-- A whole number is read as it was written, unless it is too long. -/
theorem readMagnitude_ofNat (negative : Bool) (n : ℕ) (hrest : Ends rest) :
    readMagnitude negative (Text.ofNat n ++ rest) =
      if isOverlong negative (Text.ofNat n) then none
      else some (.whole (signed negative n), rest) := by
  have hfirst : (Text.ofNat n).head? ≠ some '0' ∨ (Text.ofNat n).length = 1 := by
    rcases Nat.eq_zero_or_pos n with rfl | hn
    · exact .inr rfl
    · exact .inl (head?_ofNat hn)
  have hproper : (⟨Text.ofNat n, [], none⟩ : Numeral).IsProper :=
    ⟨isDigits_ofNat n, hfirst, fun _ hc => absurd hc List.not_mem_nil, by simp⟩
  have hsplit : splitDigits (Text.ofNat n ++ rest) = (Text.ofNat n, rest) :=
    splitDigits_append (isDigits_ofNat n).isDigit hrest.not_digit
  have hplaces : readPlaces rest = some (none, rest) := Numeral.readPlaces_eq hproper hrest
  have hpower : readPower rest = some (none, rest) := Numeral.readPower_eq hproper hrest
  simp only [readMagnitude, hsplit, (isDigits_ofNat n).digits?_eq, Option.bind_eq_bind,
    Option.bind_some, if_neg ((isDigits_ofNat n).not_zero_in_front hfirst), hplaces, hpower,
    valueOnto_map, ofDigitChars_ofNat, Option.isNone_none, Bool.and_self, if_true]

/-! ## Numbers and names -/

/-- A number does not begin as a name does. -/
theorem names_of_isLed (h : IsLed t) :
    (names.findSome? fun (s, document) =>
      (Text.stripFront? s.toList t).map fun rest => (document, rest)) = none := by
  obtain ⟨c, more, rfl, hc⟩ := h
  have hother (f : Char) (front : Text) (hf : f.isDigit = false) :
      Text.stripFront? (f :: front) (c :: more) = none := by
    rw [Text.stripFront?, if_neg]
    intro heq
    rw [beq_iff_eq] at heq
    rw [heq, hc] at hf
    exact Bool.noConfusion hf
  have hnames : ∀ p ∈ names, ∃ f front, p.1.toList = f :: front ∧ f.isDigit = false := by
    simp [names]
  rw [List.findSome?_eq_none_iff]
  rintro ⟨name, document⟩ hp
  obtain ⟨f, front, htext, hf⟩ := hnames _ hp
  dsimp only at htext ⊢
  rw [htext, hother f front hf, Option.map_none]

/-- A sign in front of digits does not begin a name. -/
theorem names_of_minus (h : IsLed t) :
    (names.findSome? fun (s, document) =>
      (Text.stripFront? s.toList ('-' :: t)).map fun rest => (document, rest)) = none := by
  obtain ⟨c, more, rfl, hc⟩ := h
  have hI : ('I' == c) = false := by
    rw [beq_eq_false_iff_ne]
    rintro rfl
    exact absurd hc (by decide)
  simp [names, Text.stripFront?, hI]

theorem readScalar_of_isLed (h : IsLed t) :
    readScalar t = (readMagnitude false t).map fun (n, after) => (number n, after) := by
  rw [readScalar, names_of_isLed h, Option.none_or]
  · obtain ⟨c, more, rfl, hc⟩ := h
    rintro rest heq
    rw [(List.cons.inj heq).1] at hc
    exact absurd hc (by decide)

theorem readScalar_minus (h : IsLed t) :
    readScalar ('-' :: t) = (readMagnitude true t).map fun (n, after) => (number n, after) := by
  rw [readScalar, names_of_minus h, Option.none_or]

/-- A whole number whose text is short enough to be read; the sign of a negative one counts. -/
def IsShort (n : ℤ) : Prop := (Text.ofInt n).length ≤ maxDigits

instance (n : ℤ) : Decidable (IsShort n) := inferInstanceAs (Decidable (_ ≤ _))

/-- A whole number is read as it was written, unless it is too long. -/
theorem readScalar_ofInt (n : ℤ) (hrest : Ends rest) :
    readScalar (Text.ofInt n ++ rest) =
      if IsShort n then some (number (.whole n), rest) else none := by
  cases n with
  | ofNat n =>
    have hshort : isOverlong false (Text.ofNat n) = true ↔ ¬ IsShort (.ofNat n) := by
      simp [isOverlong, IsShort, Text.ofInt]
    rw [Text.ofInt, readScalar_of_isLed ((isDigits_ofNat n).isLed rest),
      readMagnitude_ofNat false n hrest]
    simp only [hshort, ite_not]
    split <;> rfl
  | negSucc n =>
    have hshort : isOverlong true (Text.ofNat (n + 1)) = true ↔ ¬ IsShort (.negSucc n) := by
      simp [isOverlong, IsShort, Text.ofInt]
    rw [Text.ofInt, List.cons_append, readScalar_minus ((isDigits_ofNat (n + 1)).isLed rest),
      readMagnitude_ofNat true (n + 1) hrest]
    simp only [hshort, ite_not]
    split <;> rfl

/-- A finite binary64 number above zero is read as settings files write it. -/
theorem readScalar_writeFloat {style : Style} (hstyle : style.greatest < maxDigits)
    (hx : IsFinitePositive x) (hrest : Ends rest) :
    readScalar (writeFloat style x ++ rest) = some (number (.real x), rest) := by
  rw [readScalar_of_isLed (isLed_writeFloat style hx rest),
    readMagnitude_writeFloat hstyle hx hrest]
  rfl

theorem readScalar_null (rest : Text) : readScalar ("null".toList ++ rest) = some (null, rest) :=
  rfl

theorem readScalar_bool (b : Bool) (rest : Text) :
    readScalar ((if b then "true".toList else "false".toList) ++ rest) = some (bool b, rest) := by
  cases b <;> rfl

end RazorViews.Json
