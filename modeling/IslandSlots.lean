import IslandSlots.Main
import IslandSlots.Files.Store
import IslandSlots.Loop.Binding
import IslandSlots.Text.Quoted
import IslandSlots.Proofs.Render.Linear
import IslandSlots.Proofs.Render.EndTags
import IslandSlots.Proofs.Render.Isolation
import IslandSlots.Proofs.Render.Orderly
import IslandSlots.Proofs.Render.RoundTrip
import IslandSlots.Proofs.Render.Arranged
import IslandSlots.Proofs.Component.Blocks
import IslandSlots.Proofs.Render.Choice
import IslandSlots.Proofs.Slot.Annotation
import IslandSlots.Proofs.Slot.Reading
import IslandSlots.Proofs.Markup.Grammar
import IslandSlots.Proofs.Template.Spans
import IslandSlots.Proofs.Template.Printing
import IslandSlots.Proofs.Template.RoundTrip
import IslandSlots.Proofs.Template.Openings
import IslandSlots.Proofs.Slot.Loops
import IslandSlots.Proofs.Markup.Holes
import IslandSlots.Proofs.Text.EditedText
import IslandSlots.Proofs.Render.Store
import IslandSlots.Proofs.Render.Walk
import IslandSlots.Proofs.Render.Decoding
import IslandSlots.Proofs.Component.RoundTrip
import IslandSlots.Proofs.Component.Unclosed
import IslandSlots.Proofs.Batch.Schedules
import IslandSlots.Proofs.Markup.Joined
import IslandSlots.Proofs.Render.Pushes
import IslandSlots.Proofs.Render.Literals
import IslandSlots.Proofs.Render.Slots
import IslandSlots.Proofs.Batch.Outcome
import IslandSlots.Proofs.Render.Failures
import IslandSlots.Proofs.Render.Preorder
import IslandSlots.Proofs.Render.Outline
import IslandSlots.Proofs.Slot.QuickCheck
import IslandSlots.Proofs.Loop.Words
import IslandSlots.Proofs.Component.Contents
import IslandSlots.Proofs.Template.Values
import IslandSlots.Proofs.Slot.Cursor
import IslandSlots.Proofs.Component.Scripts
import IslandSlots.Proofs.Markup.RawText
import IslandSlots.Proofs.Loop.Items
import IslandSlots.Proofs.Template.Shifted
import IslandSlots.Proofs.Output.Requests
