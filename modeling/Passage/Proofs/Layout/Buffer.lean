import Passage.Proofs.Layout.Printed
import Passage.Proofs.Render.Complete

/-! The text between two stages. The blocks whose stages have run are laid out, with their content
as it was printed until the verse stage has run; the other blocks stand as they were printed
(`form`). A pass goes through such a text block by block, and its state after a block is a
function of the blocks so far (`rewrites_spread`). -/

namespace Passage.Document

variable {f g : List Element → List Element → Element → StyledText}

/-- The blocks of `done`, with those of `rest` after them. -/
def before (f : List Element → List Element → Element → StyledText) (done rest : List Element) :
    StyledText :=
  spread (fun d r e => f d (r ++ rest) e) [] done

theorem spread_append (f : List Element → List Element → Element → StyledText)
    (done front back : List Element) :
    spread f done (front ++ back) =
      spread (fun d r e => f d (r ++ back) e) done front ++ spread f (done ++ front) back := by
  induction front generalizing done with
  | nil => rw [List.nil_append, List.append_nil, spread, StyledText.empty_append]
  | cons e front ih =>
    rw [List.cons_append, spread, spread, ih, StyledText.append_assoc, List.append_assoc,
      List.singleton_append]

theorem before_append (f : List Element → List Element → Element → StyledText)
    (done : List Element) (e : Element) (rest : List Element) :
    before f (done ++ [e]) rest = before f done (e :: rest) ++ f done rest e := by
  rw [before, spread_append, before, spread, spread, StyledText.append_empty]
  simp

/-- Blocks around one of them. -/
theorem spread_split (f : List Element → List Element → Element → StyledText)
    (done : List Element) (e : Element) (rest : List Element) :
    spread f [] (done ++ e :: rest) =
      before f done (e :: rest) ++ (f done rest e ++ spread f (done ++ [e]) rest) :=
  spread_append f [] done (e :: rest)

theorem spread_congr {done doc : List Element}
    (h : ∀ front e r, front ++ e :: r = doc → f (done ++ front) r e = g (done ++ front) r e) :
    spread f done doc = spread g done doc := by
  induction doc generalizing done with
  | nil => rfl
  | cons e doc ih =>
    have he := h [] e doc rfl
    rw [List.append_nil] at he
    rw [spread, spread, he, ih]
    intro front e' r hf
    have hfront := h (e :: front) e' r (by rw [List.cons_append, hf])
    rwa [← List.singleton_append, ← List.append_assoc] at hfront

/-- Blocks that are the same in all places may follow any blocks. -/
theorem spread_const (h : Element → StyledText) (done done' doc : List Element) :
    spread (fun _ _ => h) done doc = spread (fun _ _ => h) done' doc := by
  induction doc generalizing done done' with
  | nil => rfl
  | cons e doc ih => rw [spread, spread, ih]

/-- The run lemma of a pass: if it makes `g` of each block in its place, it makes `g` of them all.
`state` is the state of its rule after some blocks. -/
theorem rewrites_spread {σ : Type} {p : Tag.Pattern} {rule : σ → Occurrence → StyledText × σ}
    {state : List Element → σ} {done doc : List Element}
    (h : ∀ d e r, d ++ e :: r = done ++ doc →
      Rewrites p rule (before f d (e :: r)).chars.length (state d) (f d r e).chars
        (g d r e).chars (state (d ++ [e]))) :
    Rewrites p rule (before f done doc).chars.length (state done) (spread f done doc).chars
      (spread g done doc).chars (state (done ++ doc)) := by
  induction doc generalizing done with
  | nil =>
    rw [List.append_nil]
    exact .nil
  | cons e doc ih =>
    have hassoc : done ++ [e] ++ doc = done ++ e :: doc := by simp
    have hrest := ih fun d e' r hd => h d e' r (hd.trans hassoc)
    rw [before_append, StyledText.chars_append, List.length_append, hassoc] at hrest
    rw [spread, spread, StyledText.chars_append, StyledText.chars_append]
    exact (h done e doc rfl).append hrest

/-! ## Forms -/

/-- Content as it is printed, under the styles of its block. -/
def Content.draft (styles : StyleSet) (_ : List Nat) (c : Content) : StyledText :=
  .styled c.source styles

/-- Content when the stages of `ran` have run. -/
def Content.form (breaks : Bool) (ran : List Stage) :
    StyleSet → List Nat → Content → StyledText :=
  if .verse ∈ ran then Content.layout breaks else Content.draft

/-- A block when the stages of `ran` have run. -/
def Element.form (breaks : Bool) (ran : List Stage) (done rest : List Element) (e : Element) :
    StyledText :=
  if e.stage ∈ ran then e.layoutWith (Content.form breaks ran) done rest else .plain e.source

/-- Before the first stage of blocks the text is the document as it was printed. -/
theorem spread_form_of_not_mem (breaks : Bool) {ran : List Stage}
    (hran : ∀ e : Element, e.stage ∉ ran) (done doc : List Element) :
    spread (Element.form breaks ran) done doc = .plain (source doc) := by
  induction doc generalizing done with
  | nil => rfl
  | cons e doc ih =>
    rw [spread, ih, Element.form, if_neg (hran e), StyledText.eq_iff_chars]
    simp [source]

theorem form_all (breaks : Bool) {ran : List Stage} (hverse : .verse ∈ ran) {e : Element}
    (he : e.stage ∈ ran) (done rest : List Element) :
    e.form breaks ran done rest = e.layoutWith (Content.layout breaks) done rest := by
  rw [Element.form, if_pos he, Content.form, if_pos hverse]

theorem form_own {breaks : Bool} {ran : List Stage} {s : Stage} {e : Element} (h : e.stage = s)
    (done rest : List Element) :
    e.form breaks (ran ++ [s]) done rest =
      e.layoutWith (Content.form breaks (ran ++ [s])) done rest :=
  if_pos (List.mem_append_right ran (h ▸ List.mem_cons_self))

/-- A stage changes the blocks that it lays out only. -/
theorem form_append {breaks : Bool} {ran : List Stage} {s : Stage} (hv : s ≠ .verse) {e : Element}
    (h : e.stage ≠ s) (done rest : List Element) :
    e.form breaks (ran ++ [s]) done rest = e.form breaks ran done rest := by
  have hc : Content.form breaks (ran ++ [s]) = Content.form breaks ran := by
    simp [Content.form, hv.symm]
  simp [Element.form, hc, h]

end Passage.Document
