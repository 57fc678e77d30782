import Passage.Proofs.Display.Parts
import Passage.Proofs.Render.Cancellation
import Passage.Proofs.Render.Normals

/-! Emphasis on the screen. Bold and italic that a render gives are shown wherever the text is not
marked as normal. What is marked comes from inside the poetic lines and is no tap target, so the
labels of verses and the glyphs of notes always show theirs (`emphasis_shown`). In a poetic line the
emphasis of other stages is lost, whether they run before the stage of poetic lines or after it
(`emphasis_lost_in_poetic_line`). -/

namespace Passage

/-- A span shows the emphasis of a part, unless the part is marked as normal. -/
structure LinePart.Emphasised (p : LinePart) (s : DisplaySpan) : Prop where
  text_eq : s.text = p.text
  bold : .bold ∈ p.styles → (s.look.added.bold = true ↔ .normal ∉ p.styles)
  italic : .italic ∈ p.styles → (s.look.added.italic = true ↔ .normal ∉ p.styles)

theorem LinePart.Shown.emphasised {selected : Option Span} {p : LinePart} {s : DisplaySpan}
    (h : p.Shown selected s) : p.Emphasised s := by
  refine ⟨h.text_eq, fun hbold => ?_, fun hitalic => ?_⟩
  · rw [h.look.bold]
    exact ⟨fun hand => hand.2, fun hnormal => ⟨hbold, hnormal⟩⟩
  · rw [h.look.italic]
    exact ⟨fun hand => hand.2, fun hnormal => ⟨hitalic, hnormal⟩⟩

/-- A part has the styles of characters of the text. -/
theorem StyledText.forall_partsOn_of_chars {t : StyledText} {P : StyleSet → Prop}
    (h : ∀ c ∈ t.chars, P c.2) (line : Nat) : ∀ p ∈ t.partsOn line, P p.styles := by
  intro p hp
  have hpart : (p.place, p.styles) ∈ (t.partsOn line).map fun p => (p.place, p.styles) :=
    List.mem_map_of_mem hp
  obtain ⟨q, hq, heq⟩ :=
    List.mem_map.mp ((LinePart.map_onLine_sublist line 0 t.placed).subset hpart)
  have hstyles : q.2.styles = p.styles := congrArg Prod.snd heq
  rw [← hstyles]
  exact StyledText.forall_runs_of_chars h q.2 (mem_runs_of_mem_placed hq)

/-- **Emphasis that a render gives is shown, except in poetic lines.** On each line of the display
of a render of all stages the spans are the parts of the runs there, and a span of a bold or italic
run adds bold or italic just if the run is not marked as normal. No run that can be tapped is
marked. And the characters that are marked are taken in order from the contents of the poetic lines,
as these are found after the stages before. -/
theorem emphasis_shown (config : RenderConfig) (text : List Char) :
    ∃ t lines,
      render config Stage.all (.always false) (.plain text) = ⟨t, Stage.all, none⟩ ∧
      t.ranged.displayLines? none = some lines ∧
      (∀ line, List.Forall₂ LinePart.Emphasised (t.partsOn line)
        (lines[line]?.elim [] DisplayLine.spans)) ∧
      (∀ line, ∀ p ∈ t.partsOn line, p.styles.regions ≠ [] → .normal ∉ p.styles) ∧
      (normals t.chars).Sublist
        ((Poetry.lines (afterStages config (.plain text) earlyStages).text).flatMap fun m =>
          Text.slice (afterStages config (.plain text) earlyStages).text (Poetry.content m)) := by
  obtain ⟨hnormals, hsettled⟩ := normals_afterStages config text
  refine ⟨afterStages config (.plain text) Stage.all, _, render_always config Stage.all _,
    RangedText.displayLines?_ranged _ none, ?_, ?_, hnormals⟩
  · intro line
    exact (StyledText.shown_displayLines _ none line).imp fun _ _ hshown => hshown.emphasised
  · intro line
    exact StyledText.forall_partsOn_of_chars hsettled line

/-- A Selah at the end of a poetic line is italic and is not shown so. -/
theorem emphasis_lost_in_poetic_line :
    let t := (render {} Stage.all (.always false) (.plain
      "<para style=\"q1\">Rest <char style=\"qs\">Selah</char></para>".toList)).text
    ((t.partsOn 1).map fun p => (p.text, decide (.italic ∈ p.styles))) =
      [("Selah".toList, true)] ∧
    ((t.ranged.displayLines? none).map fun lines =>
      (lines[1]?.elim [] DisplayLine.spans).map fun s => (s.text, s.look.added.italic)) =
      some [("Selah".toList, false)] := by
  decide +kernel

end Passage
