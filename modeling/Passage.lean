import Passage.Text.Blank
import Passage.Text.DecimalDigit
import Passage.Text.Uppercase
import Passage.Text.Decimal
import Passage.Text.Utf8
import Passage.Text.Literal
import Passage.Text.Ranges
import Passage.Text.Grapheme.Class
import Passage.Text.Grapheme
import Passage.Text.Column.Ranges
import Passage.Text.Column
import Passage.Text.Scientific
import Passage.Text.Radix
import Passage.Text.Decode
import Passage.Style.Attribute
import Passage.Style.Set
import Passage.Styled.Run
import Passage.Styled.Text
import Passage.Styled.Offset
import Passage.Styled.Markup
import Passage.Tag.Pattern
import Passage.Tag.Scan
import Passage.Verse.Marker
import Passage.Verse.Set
import Passage.Verse.Expected
import Passage.Verse.Bounds
import Passage.Note.Attributes
import Passage.Note.Body
import Passage.Note.Marker
import Passage.Render.Config
import Passage.Render.Cancel
import Passage.Render.Replace
import Passage.Render.Stage
import Passage.Render.Block
import Passage.Render.Poetry
import Passage.Render.Inline
import Passage.Render.Report
import Passage.Render.Session
import Passage.Render.Token
import Passage.Display.Look
import Passage.Display.Line
import Passage.Viewer.State
import Passage.Viewer.Wrap
import Passage.Viewer.Screen
import Passage.Toml.Value
import Passage.Toml.Number
import Passage.Toml.Quoted
import Passage.Toml.Document
import Passage.Settings.Layer
import Passage.Settings.Convert
import Passage.Settings.Load
import Passage.Report.Document
import Passage.Report.Json
import Passage.Report.YamlScalar
import Passage.Report.Yaml
import Passage.CommandLine.Flag
import Passage.CommandLine.Arguments
import Passage.CommandLine.Files
import Passage.CommandLine.Run
import Passage.Main
import Passage.Proofs.Tag.Matches
import Passage.Proofs.Styled.Chars
import Passage.Proofs.Render.Weave
import Passage.Proofs.Render.Complete
import Passage.Proofs.Render.Cancellation
import Passage.Proofs.Verse.Label
import Passage.Proofs.Style.Regions
import Passage.Proofs.Verse.Pins
import Passage.Proofs.Styled.Placed
import Passage.Proofs.Verse.Targets
import Passage.Proofs.Verse.Accepted
import Passage.Proofs.Verse.Coverage
import Passage.Proofs.Tag.Content
import Passage.Proofs.Render.Pins
import Passage.Proofs.Verse.Safety
import Passage.Proofs.Layout.Document
import Passage.Proofs.Tag.Reading
import Passage.Proofs.Render.Rewrites
import Passage.Proofs.Layout.Printed
import Passage.Proofs.Layout.Buffer
import Passage.Proofs.Layout.Blocks
import Passage.Proofs.Layout.Answers
import Passage.Proofs.Layout.Poetry
import Passage.Proofs.Layout.Verses
import Passage.Proofs.Layout.Blanks
import Passage.Proofs.Layout.Render
import Passage.Styled.Ranged
import Passage.Proofs.Styled.Ranged
import Passage.Proofs.Styled.Slices
import Passage.Proofs.Styled.Lookup
import Passage.Proofs.Styled.Reachable
import Passage.Proofs.Render.Splice
import Passage.Render.Rewrite
import Passage.Proofs.Render.Loop
import Passage.Proofs.Verse.Completeness
import Passage.Proofs.Styled.Alike
import Passage.Proofs.Render.Alike
import Passage.Proofs.Render.Erasure
import Passage.Proofs.Render.Targets
import Passage.Proofs.Tag.Parts
import Passage.Proofs.Tag.Grammar
import Passage.Proofs.Tag.Recognise
import Passage.Proofs.Render.Session
import Passage.Proofs.Styled.Spacing
import Passage.Proofs.Render.Normalize
import Passage.Proofs.Render.Conserve
import Passage.Proofs.Note.Attributes
import Passage.Proofs.Note.Body
import Passage.Proofs.Note.Marker
import Passage.Display.Builder
import Passage.Proofs.Text.Lines
import Passage.Proofs.Display.Lines
import Passage.Render.Cutting
import Passage.Render.Held
import Passage.Proofs.Text.Shrink
import Passage.Proofs.Tag.Opening
import Passage.Proofs.Render.Behind
import Passage.Proofs.Render.Hoist
import Passage.Proofs.Plain.Block
import Passage.Proofs.Plain.Stages
import Passage.Proofs.Plain.Render
import Passage.Proofs.Plain.Lines
import Passage.Proofs.Render.Cuts
import Passage.Proofs.Text.Trim
import Passage.Proofs.Verse.Spelling
import Passage.Proofs.Verse.Inserts
import Passage.Proofs.Viewer.Keys
import Passage.Proofs.Settings.Layer
import Passage.Proofs.Settings.Values
import Passage.Proofs.Settings.Said
import Passage.Proofs.Settings.Load
import Passage.Proofs.Render.Suppression
import Passage.Proofs.Note.Targets
import Passage.Proofs.Note.Shrunk
import Passage.Proofs.Render.InlineTags
import Passage.Proofs.Render.Headings
import Passage.Proofs.Poetry.Origins
import Passage.Proofs.Poetry.Breaks
import Passage.Proofs.Poetry.Indent
import Passage.Proofs.Display.Looks
import Passage.Proofs.Display.Parts
import Passage.Proofs.Render.Normals
import Passage.Proofs.Display.Emphasis
import Passage.Proofs.Styled.Refused
import Passage.Proofs.Verse.Bounds
import Passage.Proofs.Viewer.Screen
import Passage.Proofs.Viewer.Selection
import Passage.Proofs.Display.Selected
import Passage.Proofs.Viewer.Shown
import Passage.Styled.Search
import Passage.Proofs.Text.Bytes
import Passage.Proofs.Styled.Search
