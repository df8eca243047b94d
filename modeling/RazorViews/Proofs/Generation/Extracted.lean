import RazorViews.Cache.Shared
import RazorViews.Proofs.Cache.Transparent
import RazorViews.Proofs.Property.Bounds
import RazorViews.Proofs.View.Page

/-!
# What is extracted can be printed

A form says in digits how long the text of an input may be, and a number of too many digits is not
printed.  None comes out of a source: a numeral of so many digits is not read, and what is read has
at most as many digits as its numeral (`IsPrintable.of_readInt?`).  So the properties that an
extraction gives have bounds that can be printed (`isPrintable_of_extract`).

## Lists from the cache

A call may be served a list that some other call has put into the cache.  The cache has no notion of
a list that is right or wrong, so that its lists are extracted ones is an invariant of its own
(`Store.IsExtracted`).  A new cache has it, and so has whatever becomes of it (`isExtracted_after`):
sweeping, deleting and clearing take lists out only, and the one that a call puts in comes from a
source that it has read.

With this invariant all that a call answers can be printed (`Call.isPrintable_of_result`), whichever
file it has selected and whatever settings were in force when its list was put in.  Nothing is said
of a cache that somebody else has filled.
-/

namespace RazorViews

/-! ## Bounds -/

theorem IsPrintable.of_readInt? {t : Text} {n : ℤ} (h : Number.readInt? t = some n) :
    IsPrintable n.toNat := by
  have hle : n.toNat ≤ n.natAbs := by omega
  have hlength := Number.length_ofNat_of_readInt? h
  rw [Text.ofNat, Nat.length_toDigits_le_iff (by decide) (by decide)] at hlength
  rw [IsPrintable, Text.ofNat, Nat.length_toDigits_le_iff (by decide) (by decide)]
  exact Nat.lt_of_le_of_lt hle hlength

namespace Metadata

/-- The length bounds can be printed, as far as they are given. -/
def HasPrintable (m : Metadata) : Prop :=
  (∀ n ∈ m.maxLength, IsPrintable n) ∧ ∀ n ∈ m.minLength, IsPrintable n

theorem isPrintable_of_bound? {patterns : List Pattern} {t : Text} {b : Option ℕ}
    (h : bound? patterns t = .ok b) : ∀ n ∈ b, IsPrintable n := by
  intro n hn
  obtain rfl : b = some n := hn
  rw [bound?] at h
  split at h
  · exact absurd h (by simp)
  · split at h
    · rename_i z hz
      obtain rfl : z.toNat = n := by simpa using h
      exact IsPrintable.of_readInt? hz
    · exact absurd h (by simp)

theorem isPrintable_or {a b : Option ℕ} (ha : ∀ n ∈ a, IsPrintable n)
    (hb : ∀ n ∈ b, IsPrintable n) : ∀ n ∈ a.or b, IsPrintable n := by
  cases a with
  | none => exact hb
  | some m => exact ha

theorem HasPrintable.add {m m' : Metadata} {body : Text} (hm : m.HasPrintable)
    (h : m.add body = .ok m') : m'.HasPrintable := by
  rw [Metadata.add] at h
  cases hmax : bound? maxLengths body with
  | error digits =>
    rw [hmax] at h
    exact absurd h (by simp [bind, Except.bind])
  | ok greatest =>
    cases hmin : bound? minLengths body with
    | error digits =>
      rw [hmax, hmin] at h
      exact absurd h (by simp [bind, Except.bind])
    | ok least =>
      rw [hmax, hmin] at h
      obtain rfl := Except.ok.inj h
      exact ⟨isPrintable_or (isPrintable_of_bound? hmax) hm.1,
        isPrintable_or (isPrintable_of_bound? hmin) hm.2⟩

/-- What annotations say of lengths can be printed. -/
theorem hasPrintable_ofAttributes {attributes : List Text} {m : Metadata}
    (h : ofAttributes attributes = .ok m) : m.HasPrintable := by
  have hfold : ∀ start : Metadata, start.HasPrintable →
      attributes.foldlM Metadata.add start = .ok m → m.HasPrintable := by
    clear h
    induction attributes with
    | nil =>
      intro start hstart h
      obtain rfl := Except.ok.inj h
      exact hstart
    | cons body attributes ih =>
      intro start hstart h
      rw [List.foldlM_cons] at h
      cases hadd : start.add body with
      | error digits =>
        rw [hadd] at h
        exact absurd h (by simp [bind, Except.bind])
      | ok next =>
        rw [hadd] at h
        exact ih next (hstart.add hadd) h
  exact hfold empty ⟨by simp [empty], by simp [empty]⟩ h

end Metadata

/-! ## Properties -/

namespace Property

theorem isPrintable_of_ofCandidate {c : Candidate} {className : Text} {p : Property}
    (h : (ofCandidate c className).2 = .ok p) : p.IsPrintable := by
  rw [ofCandidate] at h
  cases hmetadata : Metadata.ofAttributes c.attributes with
  | error digits =>
    simp only [hmetadata] at h
    exact absurd h (by simp)
  | ok metadata =>
    obtain ⟨hmax, hmin⟩ := Metadata.hasPrintable_ofAttributes hmetadata
    simp only [hmetadata] at h
    split at h
    · obtain rfl := Except.ok.inj h
      exact ⟨hmax, hmin⟩
    · exact absurd h (by simp)

theorem isPrintable_of_ofCandidates {skipIdentity : Bool} {className : Text}
    {candidates : List Candidate} {properties : List Property}
    (h : (ofCandidates skipIdentity className candidates).2 = .ok properties) :
    ∀ p ∈ properties, p.IsPrintable := by
  induction candidates generalizing properties with
  | nil =>
    obtain rfl := Except.ok.inj h
    simp
  | cons c rest ih =>
    rw [ofCandidates] at h
    split at h
    · exact ih h
    · split at h
      · exact absurd h (by simp)
      · rename_i events p hp
        cases hrest : (ofCandidates skipIdentity className rest).2 with
        | error failure =>
          simp only [hrest] at h
          exact absurd h (by simp [Except.map])
        | ok more =>
          simp only [hrest] at h
          obtain rfl := Except.ok.inj h
          have hfirst : (ofCandidate c className).2 = .ok p := by rw [hp]
          exact List.forall_mem_cons.2 ⟨isPrintable_of_ofCandidate hfirst, ih hrest⟩

/-- What is extracted from a source can be printed. -/
theorem isPrintable_of_extract {skipIdentity : Bool} {source className : Text}
    {properties : List Property}
    (h : (extract skipIdentity source className).2 = .ok properties) :
    ∀ p ∈ properties, p.IsPrintable :=
  isPrintable_of_ofCandidates h

end Property

/-! ## The cache -/

/-- Every list in the store is one that an extraction has given. -/
def Store.IsExtracted (s : Store) : Prop :=
  ∀ e ∈ s.entries, ∃ skipIdentity source className,
    (Property.extract skipIdentity source className).2 = .ok e.properties

namespace Extraction

theorem Call.PutsIn.exists_extract {c : Call} {e : Entry} (h : c.PutsIn e) :
    ∃ skipIdentity source className,
      (Property.extract skipIdentity source className).2 = .ok e.properties := by
  obtain ⟨-, source, -, -, -, -, hextract⟩ := h.file
  exact ⟨c.settings.skipIdentity, source, c.className, hextract⟩

/-- Whatever happens to a new store, its lists are extracted ones. -/
theorem isExtracted_after (bounds : CacheSettings) (acts : List Act) :
    (after (SharedStore.storeOf bounds) acts).IsExtracted := by
  intro e he
  rcases after_entries he with hold | ⟨c, -, hput⟩
  · exact absurd hold List.not_mem_nil
  · exact hput.exists_extract

theorem Call.isPrintable_of_plain {c : Call} {properties : List Property}
    (h : c.plain = .ok properties) : ∀ p ∈ properties, p.IsPrintable := by
  rw [Call.plain] at h
  split at h
  · rename_i file hfile
    rw [Call.scanned] at h
    split at h
    · obtain rfl := Except.ok.inj h
      simp
    · exact Property.isPrintable_of_extract h
  · split at h
    · exact absurd h (by simp)
    · obtain rfl := Except.ok.inj h
      simp

/-- Whatever a call answers on a store of extracted lists can be printed. -/
theorem Call.isPrintable_of_result {c : Call} {s : Store} (hs : s.IsExtracted)
    {properties : List Property} (h : c.result s = .ok properties) :
    ∀ p ∈ properties, p.IsPrintable := by
  rcases run_cases c s with ⟨e, hhit, -, hresult⟩ | ⟨-, hresult, -⟩
  · obtain rfl := Except.ok.inj (hresult.symm.trans h)
    obtain ⟨file, -, hserved⟩ := Option.bind_eq_some_iff.1 hhit
    obtain ⟨hfind, -⟩ := Store.served?_eq_some_iff.1 hserved
    obtain ⟨skipIdentity, source, className, hextract⟩ := hs e (Store.mem_of_find? hfind).1
    exact Property.isPrintable_of_extract hextract
  · exact Call.isPrintable_of_plain (hresult.symm.trans h)

end Extraction

end RazorViews
