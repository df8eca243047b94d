import Mathlib.Data.List.Nodup
import Mathlib.Tactic.ByContra
import RazorViews.Controller.Detect
import RazorViews.Proofs.Pattern.All
import RazorViews.Proofs.Pattern.Replace

/-!
# The action at the cursor

Which action of a controller is meant is told by the cursor in its source.  Of the actions declared
there the one nearest to the cursor is reported, and of two equally near the earlier (`IsNearest`).

## What is proved

`detect_follows_cursor` says so of every source, every file name and every cursor, be it in front of
the source or behind it.

* The name of the controller and its namespace do not depend on the cursor.
* If any action is declared, then for each cursor there is exactly one nearest, and what is reported
  is its name, its type without white space and its parameters (`Reports`).
* Further down in the source no earlier action is chosen, so moving the cursor down moves the choice
  down or leaves it.

Actions are the matches of one pattern over the source, and `IsNearest` speaks of these and of
nothing that the choice is made by.

## What it is not

Near is near to where the declaration of an action begins.  A cursor in the body of an action may be
nearer to the one behind it, and then it is that one which is reported.  In a source without actions
something is reported all the same, which depends on no cursor either.

## The proof

No two matches begin at the same place, so of those equally near one is the earlier.  Were a later
cursor to choose an earlier action, each of the two actions would be at least as near to one of the
cursors as the other one, against the order of the cursors (`IsNearest.start_le_start`).
-/

namespace RazorViews.Controller

open Pattern

variable {source fileName : Text} {cursor c₁ c₂ : Int} {actions : List Found} {f g : Found}

/-! ## The nearest of several matches -/

/-- One of the matches, none of which is nearer to the cursor, and none as near and earlier. -/
structure IsNearest (actions : List Found) (cursor : Int) (f : Found) : Prop where
  mem : f ∈ actions
  distance_le : ∀ g ∈ actions, distance cursor f ≤ distance cursor g
  start_le : ∀ g ∈ actions, distance cursor g = distance cursor f → f.start ≤ g.start

/-- Further down no earlier match is the nearest.  Were `g` the earlier of the two, the first cursor
would stand behind the middle between them, and the second one not. -/
theorem IsNearest.start_le_start (hf : IsNearest actions c₁ f) (hg : IsNearest actions c₂ g)
    (h : c₁ ≤ c₂) : f.start ≤ g.start := by
  by_contra hlt
  have hfirst : distance c₁ f < distance c₁ g := by
    refine Nat.lt_of_le_of_ne (hf.distance_le g hg.mem) fun hsame => ?_
    exact hlt (hf.start_le g hg.mem hsame.symm)
  have hsecond := hg.distance_le f hf.mem
  unfold distance at hfirst hsecond
  omega

/-- Where no two matches begin at the same place, one of them at most is the nearest. -/
theorem IsNearest.unique (hactions : actions.Pairwise Precedes) (hf : IsNearest actions cursor f)
    (hg : IsNearest actions cursor g) : f = g := by
  have hstart : f.start = g.start :=
    Nat.le_antisymm (hf.start_le_start hg (Int.le_refl _)) (hg.start_le_start hf (Int.le_refl _))
  have hstarts : (actions.map Found.start).Nodup :=
    List.pairwise_map.2 (hactions.imp fun h => Nat.ne_of_lt h.1)
  exact List.inj_on_of_nodup_map hstarts hf.mem hg.mem hstart

/-- The search for the nearest match keeps the earlier of two that are equally near. -/
theorem isNearest_nearestOf {best : Found} {rest : List Found}
    (h : (best :: rest).Pairwise Precedes) (cursor : Int) :
    IsNearest (best :: rest) cursor (nearestOf cursor best rest) := by
  induction rest generalizing best with
  | nil => exact ⟨by simp [nearestOf], by simp [nearestOf], by simp [nearestOf]⟩
  | cons g rest ih =>
    obtain ⟨hbest, hrest⟩ := List.pairwise_cons.1 h
    have hearlier : best.start < g.start := (hbest g List.mem_cons_self).1
    rw [nearestOf]
    split
    · rename_i hcloser
      have hnearest := ih hrest
      have hle := hnearest.distance_le g List.mem_cons_self
      refine ⟨List.mem_cons_of_mem _ hnearest.mem, ?_, ?_⟩
      · exact List.forall_mem_cons.2 ⟨by omega, hnearest.distance_le⟩
      · exact List.forall_mem_cons.2 ⟨fun hsame => by omega, hnearest.start_le⟩
    · rename_i hcloser
      have hnearest := ih (h.sublist ((List.sublist_cons_self g rest).cons_cons best))
      have hle := hnearest.distance_le best List.mem_cons_self
      have hstart := hnearest.start_le best List.mem_cons_self
      have hskip : ∀ {p : Found → Prop}, (∀ g ∈ best :: rest, p g) → p g →
          ∀ g' ∈ best :: g :: rest, p g' := by
        intro p hall hg
        obtain ⟨hfirst, hmore⟩ := List.forall_mem_cons.1 hall
        exact List.forall_mem_cons.2 ⟨hfirst, List.forall_mem_cons.2 ⟨hg, hmore⟩⟩
      refine ⟨?_, hskip hnearest.distance_le (by omega), hskip hnearest.start_le ?_⟩
      · exact (List.sublist_cons_self g rest).cons_cons best |>.subset hnearest.mem
      · intro hsame
        have := hstart (by omega)
        omega

/-! ## What is reported -/

/-- What is reported of an action: the name and the result type that its declaration holds, and the
parameters in the list that its declaration ends in front of. -/
structure Reports (source : Text) (f : Found) (c : Controller) : Prop where
  action : f.kept? "name" = some c.action
  returnType : ∃ type, f.kept? "type" = some type ∧ c.returnType = some (Parameter.dropBlanks type)
  parameters : ∃ front head behind, source = front ++ (head ++ '(' :: behind) ∧
    f.start = front.length ∧ f.text = head ++ ['('] ∧
    c.parameters = Parameter.readList (Parameter.listAt ('(' :: behind))

theorem actionHeader_kept {p q : Place} (h : actionHeader.Leads p q) :
    ∃ name type, q.kept = ("name", name) :: ("type", type) :: p.kept := by
  obtain ⟨p₆, ⟨p₅, ⟨p₄, ⟨p₃, ⟨p₂, ⟨p₁, h₁, h₂⟩, htype⟩, h₄⟩, hname⟩, h₆⟩, h₇⟩ := h
  obtain ⟨type, -, -, hkept⟩ := leads_keep (by decide) htype
  obtain ⟨name, -, -, hkept'⟩ := leads_keep (by decide) hname
  refine ⟨name, type, ?_⟩
  rw [h₇.kept (by decide), h₆.kept (by decide), hkept', h₄.kept (by decide), hkept,
    h₂.kept (by decide), h₁.kept (by decide)]

/-- The declaration of an action ends with the parenthesis that opens its parameters. -/
theorem exists_head_of_takes {u : Text} (h : actionHeader.Takes u) : ∃ head, u = head ++ ['('] := by
  obtain ⟨head, mark, -, hmark, rfl⟩ := takes_append.1 h
  exact ⟨head, by rw [takes_lit.1 hmark]; rfl⟩

theorem reports_detect (h : nearestAction? source cursor = some f)
    (hmem : f ∈ actionHeader.findAll source) :
    Reports source f (detect source fileName cursor) := by
  obtain ⟨front, back, rfl, hfound⟩ := mem_findAll hmem
  obtain ⟨hleads, hstart, hread, hoffset, -⟩ := foundAt?_eq_some hfound
  obtain ⟨name, type, hkept⟩ := actionHeader_kept hleads
  obtain ⟨head, hhead⟩ := exists_head_of_takes (foundAt?_takes hfound)
  have hname : f.kept? "name" = some name := by
    rw [Found.kept?, hkept]
    rfl
  have htype : f.kept? "type" = some type := by
    rw [Found.kept?, hkept]
    rfl
  rw [Place.rest_after, hhead, List.append_assoc] at hread
  have hbehind : (front ++ back).drop (f.finish.offset - 1) = '(' :: f.finish.rest := by
    rw [hread, hoffset, hhead, Place.offset_after, List.drop_append, List.drop_append]
    simp [Place.start]
  rw [detect, h]
  refine ⟨?_, ⟨type, htype, ?_⟩, front, head, f.finish.rest, ?_, ?_, hhead, ?_⟩
  · show f.kept? "name" = some ((f.kept? "name").getD [])
    rw [hname]
    rfl
  · show (f.kept? "type").map Parameter.dropBlanks = _
    rw [htype]
    rfl
  · rw [hread]
    rfl
  · simpa [Place.start] using hstart
  · show Parameter.readList (Parameter.listAt ((front ++ back).drop (f.finish.offset - 1))) = _
    rw [hbehind]

/-! ## The action at the cursor -/

/-- **The action follows the cursor.**  Controller and namespace are the same for all cursors.  If
there are actions at all, then for each cursor exactly one is the nearest, the earlier one of two
that are equally near, and it is what is reported; and further down no earlier action is chosen. -/
theorem detect_follows_cursor (source fileName : Text) :
    (∀ c₁ c₂, (detect source fileName c₁).name = (detect source fileName c₂).name ∧
      (detect source fileName c₁).nameSpace = (detect source fileName c₂).nameSpace) ∧
    (actionHeader.findAll source ≠ [] → ∃ choice : Int → Found,
      (∀ cursor, (∀ f, IsNearest (actionHeader.findAll source) cursor f ↔ f = choice cursor) ∧
        Reports source (choice cursor) (detect source fileName cursor)) ∧
      ∀ c₁ c₂, c₁ ≤ c₂ → (choice c₁).start ≤ (choice c₂).start) := by
  have hactions := pairwise_findAll actionHeader source
  constructor
  · have hsame : ∀ c, (detect source fileName c).name = nameIn source fileName ∧
        (detect source fileName c).nameSpace = namespaceIn? source := by
      intro c
      rw [detect]
      split
      · exact ⟨rfl, rfl⟩
      · exact ⟨rfl, rfl⟩
    intro c₁ c₂
    rw [(hsame c₁).1, (hsame c₁).2, (hsame c₂).1, (hsame c₂).2]
    exact ⟨rfl, rfl⟩
  · intro hne
    obtain ⟨first, rest, hsplit⟩ := List.exists_cons_of_ne_nil hne
    have hnearest : ∀ cursor, IsNearest (actionHeader.findAll source) cursor
        (nearestOf cursor first rest) := by
      rw [hsplit] at hactions ⊢
      exact isNearest_nearestOf hactions
    refine ⟨fun cursor => nearestOf cursor first rest, fun cursor => ⟨fun f => ⟨?_, ?_⟩, ?_⟩, ?_⟩
    · exact fun hf => hf.unique hactions (hnearest cursor)
    · rintro rfl
      exact hnearest cursor
    · refine reports_detect ?_ (hnearest cursor).mem
      rw [nearestAction?, hsplit]
    · exact fun c₁ c₂ h => (hnearest c₁).start_le_start (hnearest c₂) h

/-- Two actions, of which the second starts 22 characters behind the first. -/
def twoActions : Text := "IActionResult A() { } IActionResult B(int x) { }".toList

/-- The cursor in the middle between two actions, and one character further down. -/
theorem detect_follows_cursor_twoActions :
    actionHeader.findAll twoActions ≠ [] ∧ ∃ f g : Found,
      IsNearest (actionHeader.findAll twoActions) 11 f ∧
      Reports twoActions f (detect twoActions [] 11) ∧
      IsNearest (actionHeader.findAll twoActions) 12 g ∧
      Reports twoActions g (detect twoActions [] 12) ∧ f.start ≤ g.start := by
  have hactions : actionHeader.findAll twoActions ≠ [] := by decide +kernel
  obtain ⟨choice, hchoice, hmono⟩ := (detect_follows_cursor twoActions []).2 hactions
  exact ⟨hactions, choice 11, choice 12, ((hchoice 11).1 _).2 rfl, (hchoice 11).2,
    ((hchoice 12).1 _).2 rfl, (hchoice 12).2, hmono 11 12 (by decide)⟩

/-- In the middle the earlier one is reported. -/
example : (detect twoActions [] 11).action = ['A'] ∧ (detect twoActions [] 12).action = ['B'] := by
  decide +kernel

end RazorViews.Controller
