import RazorViews.Property.Metadata
import RazorViews.Proofs.Text.Trim
import RazorViews.Proofs.Pattern.Find
import RazorViews.Proofs.Pattern.Takes

/-!
# Length bounds that can be read

What a pattern for a length bound keeps is a run of decimal digits, of any script
(`valueBy?_decimals`).  Such a numeral is a number, and never a negative one, unless it has more
digits than are read: `readInt?_decimals`.  So what annotations say is refused in no other case
(`ofAttributes_cases`), and it is refused with a failure that tells so.

Conversely a number that is read can be written with as many digits as are read
(`length_ofNat_of_readInt?`), though its numeral may have been in another script or have had zeros
in front.  Pages are printed with such numbers, and their digits are limited likewise; see
`isPrintable_of_extract`.
-/

namespace RazorViews.Number

/-! ## Numerals of digits only -/

theorem digitValue?_lt {c : Char} {d : Nat} (h : Text.digitValue? c = some d) : d < 10 := by
  by_cases hc : c.toNat < 0x80
  · have hall : ∀ n < 0x80, ∀ d ∈ Text.digitValue? (Char.ofNat n), d < 10 := by decide +kernel
    exact Text.forall_ascii (p := fun c => ∀ d ∈ Text.digitValue? c, d < 10) hall hc d h
  · rw [Text.digitValue?, if_neg hc] at h
    obtain ⟨z, hz, rfl⟩ := Option.map_eq_some_iff.1 h
    have hin := List.find?_some hz
    simp only [Bool.and_eq_true, decide_eq_true_eq] at hin
    omega

theorem not_isBlank_of_isDecimal {c : Char} (h : Text.isDecimal c = true) :
    Text.isBlank c = false := by
  by_cases hc : c.toNat < 0x80
  · have hall : ∀ n < 0x80, Text.isDecimal (Char.ofNat n) = true →
        Text.isBlank (Char.ofNat n) = false := by
      decide +kernel
    exact Text.forall_ascii (p := fun c => Text.isDecimal c = true → Text.isBlank c = false) hall
      hc h
  · rw [Text.isDecimal, Text.digitValue?, if_neg hc, Option.isSome_map, List.find?_isSome] at h
    obtain ⟨z, hz, hin⟩ := h
    have hall : ∀ z ∈ Text.zeroDigits, ∀ b ∈ Text.blankSpans, z + 10 ≤ b.1 ∨ b.2 < z := by
      decide +kernel
    rw [Bool.eq_false_iff, Text.isBlank, Text.inSpans, ne_eq, List.any_eq_true]
    rintro ⟨b, hb, hin'⟩
    simp only [Bool.and_eq_true, decide_eq_true_eq] at hin hin'
    have := hall z hz b hb
    omega

/-- The ASCII digit of the same value. -/
def asciiDigit (c : Char) : Char := Char.ofNat ((Text.digitValue? c).getD 0 + '0'.toNat)

theorem isDigit_asciiDigit {c : Char} (h : Text.isDecimal c = true) :
    (asciiDigit c).isDigit = true := by
  obtain ⟨d, hd⟩ := Option.isSome_iff_exists.1 h
  have hall : ∀ d < 10, (Char.ofNat (d + '0'.toNat)).isDigit = true := by decide
  rw [asciiDigit, hd]
  exact hall d (digitValue?_lt hd)

theorem joinDigits?_decimals {v : Text} (h : ∀ c ∈ v, Text.isDecimal c = true)
    (afterDigit : Bool) : joinDigits? afterDigit v = some (v.map asciiDigit) := by
  induction v generalizing afterDigit with
  | nil => rfl
  | cons c v ih =>
    have hc := h c List.mem_cons_self
    have hunderscore : c ≠ '_' := by
      rintro rfl
      exact absurd hc (by decide)
    obtain ⟨d, hd⟩ := Option.isSome_iff_exists.1 hc
    have hrest := ih (fun e he => h e (List.mem_cons_of_mem c he)) true
    rw [joinDigits?.eq_3 _ _ _ hunderscore, hd, hrest, List.map_cons, asciiDigit, hd]
    rfl

theorem digits?_digits {v : Text} (hne : v ≠ []) (h : ∀ c ∈ v, c.isDigit = true) :
    digits? v = some (v.map fun c => c.toNat - '0'.toNat) := by
  have hmap : ∀ w : Text, (∀ c ∈ w, c.isDigit = true) →
      (w.mapM fun c => if c.isDigit then some (c.toNat - '0'.toNat) else none) =
        some (w.map fun c => c.toNat - '0'.toNat) := by
    intro w hw
    induction w with
    | nil => rfl
    | cons c w ih =>
      have hrest := ih fun e he => hw e (List.mem_cons_of_mem c he)
      rw [List.mapM_cons, if_pos (hw c List.mem_cons_self), hrest]
      rfl
  rw [digits?, if_neg (by simpa using hne)]
  exact hmap v h

/-- A run of decimal digits is a number, unless there are more of them than are read. -/
theorem readInt?_decimals {v : Text} (hne : v ≠ []) (h : ∀ c ∈ v, Text.isDecimal c = true) :
    readInt? v =
      if v.length ≤ maxDigits then
        some ((valueOnto 0 ((v.map asciiDigit).map fun c => c.toNat - '0'.toNat) : Nat) : Int)
      else none := by
  have hspacing : ∀ c ∈ v, isSpacing c = false := by
    intro c hc
    rw [isSpacing, not_isBlank_of_isDecimal (h c hc)]
    rfl
  have hdrop : ∀ w : Text, (∀ c ∈ w, isSpacing c = false) → w.dropWhile isSpacing = w := by
    intro w hw
    cases w with
    | nil => rfl
    | cons c w => simp [hw c List.mem_cons_self]
  have htrim : trimSpacing v = v := by
    have hreverse := hdrop v.reverse fun c hc => hspacing c (List.mem_reverse.1 hc)
    rw [trimSpacing, hdrop v hspacing, Text.dropEndWhile, hreverse, List.reverse_reverse]
  have hsign : splitSign v = (false, v) := by
    cases v with
    | nil => rfl
    | cons c v =>
      have hc := h c List.mem_cons_self
      have hminus : c ≠ '-' := by
        rintro rfl
        exact absurd hc (by decide)
      have hplus : c ≠ '+' := by
        rintro rfl
        exact absurd hc (by decide)
      exact splitSign.eq_3 _ (fun _ hcons => hminus (List.cons.inj hcons).1)
        fun _ hcons => hplus (List.cons.inj hcons).1
  have hdigits : ∀ c ∈ v.map asciiDigit, c.isDigit = true := by
    intro c hc
    obtain ⟨e, he, rfl⟩ := List.mem_map.1 hc
    exact isDigit_asciiDigit (h e he)
  have hsome : v.map asciiDigit ≠ [] := by simpa using hne
  simp only [readInt?, htrim, hsign, joinDigits?_decimals h, digits?_digits hsome hdigits,
    Option.bind_eq_bind, Option.bind_some, List.length_map, signed]
  rfl

/-! ## The size of what is read -/

theorem valueOnto_lt {digits : List ℕ} (h : ∀ d ∈ digits, d < 10) (v : ℕ) :
    valueOnto v digits < (v + 1) * power 10 digits.length := by
  induction digits generalizing v with
  | nil => exact Nat.lt_of_lt_of_eq (Nat.lt_succ_self v) (Nat.mul_one (v + 1)).symm
  | cons d digits ih =>
    obtain ⟨hd, hdigits⟩ := List.forall_mem_cons.1 h
    have hpower : power 10 (d :: digits).length = power 10 digits.length * 10 := rfl
    calc valueOnto v (d :: digits) = valueOnto (10 * v + d) digits := rfl
      _ < (10 * v + d + 1) * power 10 digits.length := ih hdigits (10 * v + d)
      _ ≤ (10 * (v + 1)) * power 10 digits.length := Nat.mul_le_mul_right _ (by omega)
      _ = (v + 1) * power 10 (d :: digits).length := by
          rw [hpower, Nat.mul_comm 10, Nat.mul_assoc, Nat.mul_comm 10]

theorem lt_of_digits? {t : Text} {digits : List ℕ} (h : digits? t = some digits) :
    ∀ d ∈ digits, d < 10 := by
  have hmap : ∀ w : Text, ∀ ds : List ℕ,
      (w.mapM fun c => if c.isDigit then some (c.toNat - '0'.toNat) else none) = some ds →
        ∀ d ∈ ds, d < 10 := by
    intro w
    induction w with
    | nil =>
      intro ds hds
      obtain rfl := Option.some.inj hds
      simp
    | cons c w ih =>
      intro ds hds
      rw [List.mapM_cons, Option.bind_eq_bind, Option.bind_eq_some_iff] at hds
      obtain ⟨d, hd, hrest⟩ := hds
      rw [Option.bind_eq_bind, Option.bind_eq_some_iff] at hrest
      obtain ⟨more, hmore, hds⟩ := hrest
      obtain rfl := Option.some.inj hds
      refine List.forall_mem_cons.2 ⟨?_, ih more hmore⟩
      split at hd
      · rename_i hc
        obtain rfl := Option.some.inj hd
        simp only [Char.isDigit, Bool.and_eq_true, decide_eq_true_eq] at hc
        have hle : c.toNat ≤ 57 := hc.2
        change c.toNat - 48 < 10
        omega
      · exact absurd hd (by simp)
  rw [digits?] at h
  split at h
  · exact absurd h (by simp)
  · exact hmap t digits h

theorem length_ofNat_le {n m k : ℕ} (hm : m ≤ k) (hk : 0 < k) (h : n < power 10 m) :
    (Text.ofNat n).length ≤ k := by
  have hmono : power 10 m ≤ power 10 k := Nat.pow_le_pow_right (by decide) hm
  exact (Nat.length_toDigits_le_iff (by decide) hk).2 (Nat.lt_of_lt_of_le h hmono)

/-- A number that is read can be written with as many digits as are read. -/
theorem length_ofNat_of_readInt? {t : Text} {n : ℤ} (h : readInt? t = some n) :
    (Text.ofNat n.natAbs).length ≤ maxDigits := by
  rw [readInt?] at h
  dsimp only at h
  rw [Option.bind_eq_bind, Option.bind_eq_some_iff] at h
  obtain ⟨joined, -, h⟩ := h
  rw [Option.bind_eq_bind, Option.bind_eq_some_iff] at h
  obtain ⟨digits, hdigits, h⟩ := h
  split at h
  · rename_i hlength
    obtain rfl := Option.some.inj h
    have habs (negative : Bool) (m : ℕ) : (signed negative m).natAbs = m := by
      cases negative <;> simp [signed]
    have hlt := valueOnto_lt (lt_of_digits? hdigits) 0
    rw [Nat.zero_add, Nat.one_mul] at hlt
    rw [habs]
    exact length_ofNat_le hlength (by decide) hlt
  · exact absurd h (by simp)

end RazorViews.Number

namespace RazorViews.Metadata

open Pattern

/-! ## What is kept for a bound -/

/-- The pattern ends with a numeral, and keeps nothing else. -/
def KeepsNumeral (P : Pattern) : Prop := ∃ a : Pattern, a.isPlain = true ∧ P = a ++ numeral

/-- What is kept for a bound is a numeral of digits only. -/
theorem valueBy?_decimals {patterns : List Pattern}
    (hpatterns : ∀ P ∈ patterns, KeepsNumeral P) {t v : Text} (h : valueBy? patterns t = some v) :
    v ≠ [] ∧ ∀ c ∈ v, Text.isDecimal c = true := by
  obtain ⟨P, hP, hvalue⟩ := List.exists_of_findSome?_eq_some h
  obtain ⟨a, ha, rfl⟩ := hpatterns P hP
  obtain ⟨f, hf, hkept⟩ := Option.bind_eq_some_iff.1 hvalue
  obtain ⟨b, rest, -, hfound, -⟩ := find?_eq_some_iff.1 hf
  obtain ⟨⟨m, hfront, hkeep⟩, -, -⟩ := foundAt?_eq_some hfound
  obtain ⟨u, -, htake, hlast⟩ := leads_keep (by decide) hkeep
  rw [Found.kept?, hlast, hfront.kept ha] at hkept
  obtain rfl : u = v := by simpa using hkept
  exact takes_run1.1 htake

theorem keepsNumeral_maxLengths : ∀ P ∈ maxLengths, KeepsNumeral P := by
  intro P hP
  obtain rfl := List.mem_singleton.1 hP
  exact ⟨_, by decide, rfl⟩

theorem keepsNumeral_minLengths : ∀ P ∈ minLengths, KeepsNumeral P := by
  intro P hP
  rcases List.mem_cons.1 hP with rfl | hP
  · exact ⟨_, by decide, rfl⟩
  · obtain rfl := List.mem_singleton.1 hP
    exact ⟨_, by decide, rfl⟩

/-! ## Bounds -/

theorem bound?_cases {patterns : List Pattern} (hpatterns : ∀ P ∈ patterns, KeepsNumeral P)
    (t : Text) :
    (∃ b, bound? patterns t = .ok b ∧
      ∀ v, valueBy? patterns t = some v → v.length ≤ Number.maxDigits) ∨
    ∃ v, valueBy? patterns t = some v ∧ Number.maxDigits < v.length ∧
      bound? patterns t = .error v.length := by
  cases hvalue : valueBy? patterns t with
  | none => exact .inl ⟨none, by rw [bound?, hvalue], fun v hv => absurd hv (by simp)⟩
  | some v =>
    obtain ⟨hne, hall⟩ := valueBy?_decimals hpatterns hvalue
    have hread := Number.readInt?_decimals hne hall
    by_cases hlen : v.length ≤ Number.maxDigits
    · rw [if_pos hlen] at hread
      refine .inl ⟨_, by simp only [bound?, hvalue, hread]; rfl, ?_⟩
      intro v' hv'
      obtain rfl := Option.some.inj hv'
      exact hlen
    · rw [if_neg hlen] at hread
      exact .inr ⟨v, rfl, Nat.lt_of_not_le hlen, by simp only [bound?, hvalue, hread]⟩

/-- No numeral for a bound in an annotation has more digits than are read. -/
def IsReadable (body : Text) : Prop :=
  ∀ digits, valueBy? maxLengths body = some digits ∨ valueBy? minLengths body = some digits →
    digits.length ≤ Number.maxDigits

theorem add_cases (m : Metadata) (body : Text) :
    (∃ m', m.add body = .ok m' ∧ IsReadable body) ∨
      ∃ n, m.add body = .error n ∧ Number.maxDigits < n ∧ ¬ IsReadable body := by
  rcases bound?_cases keepsNumeral_maxLengths body with
    ⟨greatest, hmax, hmaxle⟩ | ⟨v, hv, hlt, hmax⟩
  · rcases bound?_cases keepsNumeral_minLengths body with
      ⟨least, hmin, hminle⟩ | ⟨v, hv, hlt, hmin⟩
    · refine .inl ⟨_, by rw [add, hmax, hmin]; rfl, ?_⟩
      rintro digits (hdigits | hdigits)
      · exact hmaxle digits hdigits
      · exact hminle digits hdigits
    · refine .inr ⟨v.length, by rw [add, hmax, hmin]; rfl, hlt, ?_⟩
      exact fun h => absurd (h v (.inr hv)) (Nat.not_le.2 hlt)
  · refine .inr ⟨v.length, by rw [add, hmax]; rfl, hlt, ?_⟩
    exact fun h => absurd (h v (.inl hv)) (Nat.not_le.2 hlt)

/-- What annotations say is refused exactly if a numeral in one of them has too many digits. -/
theorem ofAttributes_cases (attributes : List Text) :
    (∃ m, ofAttributes attributes = .ok m ∧ ∀ body ∈ attributes, IsReadable body) ∨
      ∃ n, ofAttributes attributes = .error n ∧ Number.maxDigits < n ∧
        ¬ ∀ body ∈ attributes, IsReadable body := by
  suffices hfold : ∀ m : Metadata, (∃ m', attributes.foldlM add m = .ok m' ∧
      ∀ body ∈ attributes, IsReadable body) ∨
        ∃ n, attributes.foldlM add m = .error n ∧ Number.maxDigits < n ∧
          ¬ ∀ body ∈ attributes, IsReadable body from hfold empty
  induction attributes with
  | nil => exact fun m => .inl ⟨m, rfl, by simp⟩
  | cons body attributes ih =>
    intro m
    rw [List.foldlM_cons]
    rcases add_cases m body with ⟨m', hadd, hreadable⟩ | ⟨n, hadd, hlt, hreadable⟩
    · rw [hadd]
      rcases ih m' with ⟨last, hfold, hall⟩ | ⟨n, hfold, hlt, hall⟩
      · exact .inl ⟨last, hfold, List.forall_mem_cons.2 ⟨hreadable, hall⟩⟩
      · exact .inr ⟨n, hfold, hlt, fun h => hall (List.forall_mem_cons.1 h).2⟩
    · rw [hadd]
      exact .inr ⟨n, rfl, hlt, fun h => hreadable (List.forall_mem_cons.1 h).1⟩

end RazorViews.Metadata
