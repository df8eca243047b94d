import RazorViews.Proofs.Canonical.Syntax
import RazorViews.Proofs.Source.Groups

/-!
# Annotations in canonical form

A line with an annotation in canonical form is one finished group, before erasing and behind it:
`split_body`, `split_emptied`.  The body of an annotation is made of pieces, single characters and
literals, and only the literals may hold brackets.  Erasing empties the literals, so it neither adds
nor takes away a bracket that counts; nor does it leave nothing of an annotation, for a character is
left or the quotes of a literal are (`trim_join_emptied_ne_nil`), and a group that is empty would
not count as one.

It is for the line of the source as well as for the erased one that this is needed: a scan looks for
groups in both, and takes the bodies from the source if there are as many of them.
-/

namespace RazorViews

namespace Canonical

open Annotations

/-! ## Pieces -/

namespace Piece

/-- A piece behind erasing: a literal without its inside. -/
def emptied : Piece → Piece
  | plain c => plain c
  | literal _ => literal []

theorem Fits.emptied {p : Piece} (h : p.Fits) : p.emptied.Fits := by
  cases p with
  | plain c => exact h
  | literal inside => exact ⟨List.not_mem_nil, List.not_mem_nil, List.not_mem_nil⟩

/-- A character of an annotation is none that means anything to a scanner. -/
theorem ne_of_isPlain {c d : Char} (h : isPlain c = true) (hd : isPlain d = false) : c ≠ d := by
  rintro rfl
  rw [h] at hd
  exact absurd hd (by simp)

end Piece

theorem closeGroup_literal {inner : Nat} {inside rest : Text} (hquote : '"' ∉ inside)
    (hback : '\\' ∉ inside) :
    closeGroup inner (some '"') (inside ++ '"' :: rest) =
      (closeGroup inner none rest).map fun (body, after) => (inside ++ '"' :: body, after) := by
  induction inside with
  | nil => simp [closeGroup]
  | cons c inside ih =>
    have hc : c ≠ '"' := fun he => hquote (he ▸ List.mem_cons_self)
    have hc' : c ≠ '\\' := fun he => hback (he ▸ List.mem_cons_self)
    have hmore := ih (fun h => hquote (List.mem_cons_of_mem c h))
      (fun h => hback (List.mem_cons_of_mem c h))
    simp [closeGroup, hc, hc', hmore, Function.comp_def]

/-- The body of an annotation ends with the bracket behind it. -/
theorem closeGroup_join {pieces : List Piece} (h : ∀ p ∈ pieces, p.Fits) (rest : Text) :
    closeGroup 0 none (Piece.join pieces ++ ']' :: rest) = some (Piece.join pieces, rest) := by
  induction pieces with
  | nil => simp [Piece.join, closeGroup]
  | cons p pieces ih =>
    have hmore := ih fun q hq => h q (List.mem_cons_of_mem p hq)
    have hp := h p List.mem_cons_self
    cases p with
    | plain c =>
      have hclose : c ≠ ']' := Piece.ne_of_isPlain hp (by decide)
      have hopen : c ≠ '[' := Piece.ne_of_isPlain hp (by decide)
      have hquote : c ≠ '"' := Piece.ne_of_isPlain hp (by decide)
      have hmark : c ≠ '\'' := Piece.ne_of_isPlain hp (by decide)
      show closeGroup 0 none (c :: (Piece.join pieces ++ ']' :: rest)) = _
      rw [closeGroup]
      simp only [beq_iff_eq, hclose, hopen, hquote, hmark, or_self, Bool.or_eq_true, if_false,
        hmore]
      rfl
    | literal inside =>
      have hjoin : Piece.join (.literal inside :: pieces) ++ ']' :: rest =
          '"' :: (inside ++ '"' :: (Piece.join pieces ++ ']' :: rest)) := by
        simp [Piece.join, Piece.written]
      rw [hjoin, closeGroup]
      simp [closeGroup_literal hp.1 hp.2.1, hmore]
      simp [Piece.join, Piece.written]

/-! ## The line -/

/-- A line that is one group in brackets. -/
theorem split_join {pieces : List Piece} (h : ∀ p ∈ pieces, p.Fits)
    (hne : Text.trim (Piece.join pieces) ≠ []) :
    split ('[' :: Piece.join pieces ++ [']']) = ⟨[Text.trim (Piece.join pieces)], [], false⟩ := by
  have htrim : Text.trimLeft ('[' :: Piece.join pieces ++ [']']) =
      '[' :: (Piece.join pieces ++ [']']) := by
    apply Text.trimLeft_eq_self
    intro c hc
    obtain rfl := Option.some.inj hc
    decide
  have hrest : split [] = ⟨[], [], false⟩ := split_noGroup (by decide)
  rw [split_group htrim (closeGroup_join h []), hrest, Split.withGroup, if_neg]
  rwa [List.isEmpty_iff]

theorem body_ne_nil (a : AnnotationText) : a.body ≠ [] := by
  intro h
  cases hpieces : a.pieces with
  | nil => exact a.ne_nil hpieces
  | cons p ps =>
    have hp : p.written = [] := by
      rw [AnnotationText.body, hpieces, Piece.join, List.flatMap_cons] at h
      exact (List.append_eq_nil_iff.1 h).1
    cases p with
    | plain c => exact absurd hp (List.cons_ne_nil c [])
    | literal inside => exact absurd hp (List.cons_ne_nil '"' _)

/-- Something of an annotation is left behind erasing, a character or the quotes of a literal. -/
theorem trim_join_emptied_ne_nil (a : AnnotationText) :
    Text.trim (Piece.join (a.pieces.map Piece.emptied)) ≠ [] := by
  have hsome : ¬ ∀ c ∈ a.body, Text.isBlank c = true := by
    intro hall
    exact body_ne_nil a (a.trimmed.symm.trans (Text.trim_eq_nil hall))
  intro hnil
  apply hsome
  intro c hc
  cases hblank : Text.isBlank c with
  | true => rfl
  | false =>
    obtain ⟨p, hp, hcp⟩ := List.mem_flatMap.1 hc
    obtain ⟨d, hd, hdblank⟩ : ∃ d ∈ p.emptied.written, Text.isBlank d = false := by
      cases p with
      | plain e => exact ⟨c, hcp, hblank⟩
      | literal inside => exact ⟨'"', List.mem_cons_self, by decide⟩
    have hmem : d ∈ Piece.join (a.pieces.map Piece.emptied) :=
      List.mem_flatMap.2 ⟨p.emptied, List.mem_map_of_mem hp, hd⟩
    have htrim := Text.mem_trim hmem hdblank
    rw [hnil] at htrim
    exact absurd htrim List.not_mem_nil

theorem split_body (a : AnnotationText) :
    split ('[' :: a.body ++ [']']) = ⟨[a.body], [], false⟩ := by
  have h := split_join a.fits (by rw [a.trimmed]; exact body_ne_nil a)
  rwa [a.trimmed] at h

theorem split_emptied (a : AnnotationText) :
    ∃ group, split ('[' :: Piece.join (a.pieces.map Piece.emptied) ++ [']']) =
      ⟨[group], [], false⟩ := by
  refine ⟨_, split_join ?_ (trim_join_emptied_ne_nil a)⟩
  intro p hp
  obtain ⟨q, hq, rfl⟩ := List.mem_map.1 hp
  exact (a.fits q hq).emptied

end Canonical

end RazorViews
