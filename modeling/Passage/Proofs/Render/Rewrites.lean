import Passage.Proofs.Render.Passes
import Passage.Proofs.Tag.Reading

/-! A pass read off its text. A text in which no match can start, whatever follows, is quiet for a
pattern, and a text that is one match, whatever follows, is taken by it. A text put together
from these two kinds has its matches at the places of the second kind, so what a pass makes of it
is put together in the same way (`Rewrites.passes`). -/

namespace Passage

namespace Tag.Pattern

/-- No match starts in the text, whatever follows it. -/
def Quiet (p : Pattern) (cs : List Char) : Prop :=
  ∀ atStart, Nowhere (p.match? atStart) cs

/-- The text is one match, whatever follows it. -/
structure Takes (p : Pattern) (cs : List Char) (e : Extent) : Prop where
  ne_nil : cs ≠ []
  length_eq : e.length = cs.length
  match?_eq : ∀ atStart rest, p.match? atStart (cs ++ rest) = some e

variable {p : Pattern} {x y : List Char}

theorem Quiet.append (hx : p.Quiet x) (hy : p.Quiet y) : p.Quiet (x ++ y) :=
  fun atStart => (hx atStart).append (hy atStart)

end Tag.Pattern

variable {σ : Type}

/-- A quiet stretch stands. -/
theorem Passes.quiet_append {p : Tag.Pattern} {rule : σ → Occurrence → StyledText × σ}
    {offset : Nat} {s s' : σ} {x cs out : List StyledChar} (hx : p.Quiet (x.map Prod.fst))
    (h : Passes p rule (offset + x.length) s cs out s') :
    Passes p rule offset s (x ++ cs) (x ++ out) s' := by
  refine h.keep_append fun y z hyz hz => ?_
  obtain ⟨c, z, rfl⟩ := List.exists_cons_of_ne_nil hz
  have hplace := hx (offset + y.length == 0)
  rw [hyz, List.map_append] at hplace
  rw [List.map_append]
  exact hplace.of_append.1 _

/-- From an offset and a state of its rule a pass makes one list of characters of another, and
leaves the rule in a state. -/
inductive Rewrites (p : Tag.Pattern) (rule : σ → Occurrence → StyledText × σ) :
    Nat → σ → List StyledChar → List StyledChar → σ → Prop
  | nil {offset : Nat} {s : σ} : Rewrites p rule offset s [] [] s
  | quiet {offset : Nat} {s s' : σ} {x cs out : List StyledChar} :
      p.Quiet (x.map Prod.fst) → Rewrites p rule (offset + x.length) s cs out s' →
        Rewrites p rule offset s (x ++ cs) (x ++ out) s'
  | tag {offset : Nat} {s s' : σ} {x cs out : List StyledChar} {e : Tag.Extent} :
      p.Takes (x.map Prod.fst) e →
        Rewrites p rule (offset + x.length) (rule s ⟨⟨offset, e⟩, .ofChars x⟩).2 cs out s' →
        Rewrites p rule offset s (x ++ cs)
          ((rule s ⟨⟨offset, e⟩, .ofChars x⟩).1.chars ++ out) s'

namespace Rewrites

variable {p : Tag.Pattern} {rule : σ → Occurrence → StyledText × σ} {offset : Nat} {s s₁ s' : σ}
  {a a' b b' : List StyledChar}

theorem append (h : Rewrites p rule offset s a a' s₁)
    (k : Rewrites p rule (offset + a.length) s₁ b b' s') :
    Rewrites p rule offset s (a ++ b) (a' ++ b') s' := by
  induction h with
  | nil => exact k
  | quiet hq _ ih =>
    rw [List.length_append, ← Nat.add_assoc] at k
    rw [List.append_assoc, List.append_assoc]
    exact .quiet hq (ih k)
  | tag ht _ ih =>
    rw [List.length_append, ← Nat.add_assoc] at k
    rw [List.append_assoc, List.append_assoc]
    exact .tag ht (ih k)

theorem of_quiet (h : p.Quiet (a.map Prod.fst)) : Rewrites p rule offset s a a s := by
  have hr : Rewrites p rule offset s (a ++ []) (a ++ []) s := .quiet h .nil
  rwa [List.append_nil] at hr

theorem of_takes {e : Tag.Extent} (h : p.Takes (a.map Prod.fst) e) {u : StyledText}
    (hu : rule s ⟨⟨offset, e⟩, .ofChars a⟩ = (u, s₁)) : Rewrites p rule offset s a u.chars s₁ := by
  have hr : Rewrites p rule offset s (a ++ [])
      ((rule s ⟨⟨offset, e⟩, .ofChars a⟩).1.chars ++ [])
      (rule s ⟨⟨offset, e⟩, .ofChars a⟩).2 := .tag h .nil
  rwa [List.append_nil, List.append_nil, hu] at hr

/-- A text put together from quiet parts and tags is passed over as the judgement says. -/
theorem passes {cs out : List StyledChar} (h : Rewrites p rule offset s cs out s') :
    Passes p rule offset s cs out s' := by
  induction h with
  | nil => exact .nil
  | quiet hq _ ih => exact ih.quiet_append hq
  | @tag offset s s' x cs out e ht _ ih =>
    have hne : x ≠ [] := fun hx => ht.ne_nil (by rw [hx]; rfl)
    have hlen : e.length = x.length := by rw [ht.length_eq, List.length_map]
    refine .tag hne hlen ?_ ih
    rw [List.map_append]
    exact ht.match?_eq _ _

theorem rewritten_eq {t : StyledText} {out : List StyledChar}
    (h : Rewrites p rule 0 s t.chars out s') :
    t.rewritten p rule s = .ofChars out ∧ (answers t rule s (p.matches t.text)).2 = s' :=
  h.passes.rewritten_eq

end Rewrites

namespace StyledText

theorem replaced_eq {t : StyledText} {p : Tag.Pattern} {rule : Occurrence → StyledText}
    {out : List StyledChar} (h : Rewrites p (fun _ o => (rule o, ())) 0 () t.chars out ()) :
    t.replaced p rule = .ofChars out :=
  h.passes.replaced_eq

end StyledText

end Passage
