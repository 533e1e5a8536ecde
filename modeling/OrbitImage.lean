import OrbitImage.BuiltIn
import OrbitImage.Command.Check
import OrbitImage.Command.Line
import OrbitImage.Command.Options
import OrbitImage.Command.Render
import OrbitImage.Command.Split
import OrbitImage.Command.Usage
import OrbitImage.Command.Words
import OrbitImage.Decimal.Dyadic
import OrbitImage.Decimal.Shortest
import OrbitImage.Document.Json
import OrbitImage.Document.JsonReader
import OrbitImage.Document.Node
import OrbitImage.Document.PlainScalar
import OrbitImage.Document.Record
import OrbitImage.Document.Yaml.Layout
import OrbitImage.Document.Yaml.Reader
import OrbitImage.Document.Yaml.Text
import OrbitImage.Equation.Fault
import OrbitImage.Equation.Lexeme
import OrbitImage.Equation.Postfix
import OrbitImage.Equation.Program
import OrbitImage.Equation.Stack
import OrbitImage.Equation.Token
import OrbitImage.Fault
import OrbitImage.FaultKind
import OrbitImage.Generator
import OrbitImage.Host.Basic
import OrbitImage.Host.World
import OrbitImage.Image.Balance
import OrbitImage.Image.Basic
import OrbitImage.Image.Density
import OrbitImage.Image.Gray
import OrbitImage.Image.Painting
import OrbitImage.Image.Png
import OrbitImage.Image.Progress
import OrbitImage.Image.Raster
import OrbitImage.Image.Record
import OrbitImage.Image.Summary
import OrbitImage.Main
import OrbitImage.Preset
import OrbitImage.Proofs.Command.Export
import OrbitImage.Proofs.Command.Precedence
import OrbitImage.Proofs.Command.Split
import OrbitImage.Proofs.Document.Json
import OrbitImage.Proofs.Document.Marks
import OrbitImage.Proofs.Document.Partial
import OrbitImage.Proofs.Document.Record
import OrbitImage.Proofs.Equation.Balance
import OrbitImage.Proofs.Equation.Compilation
import OrbitImage.Proofs.Equation.Composition
import OrbitImage.Proofs.Equation.Coverage
import OrbitImage.Proofs.Equation.Cutting
import OrbitImage.Proofs.Equation.Diagnosis
import OrbitImage.Proofs.Equation.Evaluation
import OrbitImage.Proofs.Equation.Expression
import OrbitImage.Proofs.Equation.Grammar
import OrbitImage.Proofs.Equation.Infix
import OrbitImage.Proofs.Equation.Printing
import OrbitImage.Proofs.Equation.Scanning
import OrbitImage.Proofs.Equation.Spelling
import OrbitImage.Proofs.Generator.Linear
import OrbitImage.Proofs.Generator.Names
import OrbitImage.Proofs.Generator.Period
import OrbitImage.Proofs.Generator.Residues
import OrbitImage.Proofs.Host.World
import OrbitImage.Proofs.Image.Address
import OrbitImage.Proofs.Image.Checked
import OrbitImage.Proofs.Image.Contrast
import OrbitImage.Proofs.Image.ContrastLine
import OrbitImage.Proofs.Image.Density
import OrbitImage.Proofs.Image.Gray
import OrbitImage.Proofs.Image.LowBits
import OrbitImage.Proofs.Image.Orbit
import OrbitImage.Proofs.Image.Painting
import OrbitImage.Proofs.Image.Pixel
import OrbitImage.Proofs.Image.Progress
import OrbitImage.Proofs.Image.Raster
import OrbitImage.Proofs.Image.Safety
import OrbitImage.Proofs.Image.Stretch
import OrbitImage.Proofs.Preset.Slug
import OrbitImage.Proofs.Request.Influence
import OrbitImage.Proofs.Session.Panel
import OrbitImage.Proofs.Session.Partial
import OrbitImage.Proofs.Session.RoundTrip
import OrbitImage.Proofs.Text.Numeral
import OrbitImage.Proofs.Text.Path
import OrbitImage.Proofs.Text.Runs
import OrbitImage.Proofs.Worker.Delivery
import OrbitImage.Proofs.Worker.Handle
import OrbitImage.Proofs.Worker.Pool
import OrbitImage.Proofs.Worker.Progress
import OrbitImage.Proofs.Worker.Refusal
import OrbitImage.Proofs.Worker.Run
import OrbitImage.Proofs.Worker.SplitView
import OrbitImage.Proofs.Worker.Submission
import OrbitImage.Proofs.Worker.Waiting
import OrbitImage.Request.Basic
import OrbitImage.Request.Mode
import OrbitImage.Request.Record
import OrbitImage.Request.Resolution
import OrbitImage.Session.Panel
import OrbitImage.Session.Record
import OrbitImage.Side
import OrbitImage.Text.Basic
import OrbitImage.Text.Numeral
import OrbitImage.Text.Path
import OrbitImage.Worker.Basic
import OrbitImage.Worker.Channel
import OrbitImage.Worker.Listener
import OrbitImage.Worker.Measure
import OrbitImage.Worker.Pool
import OrbitImage.Worker.Split
