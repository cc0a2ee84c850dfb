import FileNaming.Cache.Basic
import FileNaming.Cache.Session
import FileNaming.Command.Basic
import FileNaming.Command.Run
import FileNaming.ConfigError
import FileNaming.FileName.Basic
import FileNaming.FileName.Inspect
import FileNaming.FileName.Reach
import FileNaming.FileName.Reader
import FileNaming.FileName.WellFormed
import FileNaming.Main
import FileNaming.NameError
import FileNaming.Number.Binary64
import FileNaming.Number.Shortest
import FileNaming.Path.Attributes
import FileNaming.Path.Normal
import FileNaming.Path.Relative
import FileNaming.Path.Resolve
import FileNaming.Path.Scope
import FileNaming.Proofs.Cache.Identity
import FileNaming.Proofs.Cache.LifeCycle
import FileNaming.Proofs.Cache.Listing
import FileNaming.Proofs.Cache.Step
import FileNaming.Proofs.Cache.Transparency
import FileNaming.Proofs.Command.Arguments
import FileNaming.Proofs.Command.Secrecy
import FileNaming.Proofs.Command.Transparency
import FileNaming.Proofs.FileName.Ancestors
import FileNaming.Proofs.FileName.Concealed
import FileNaming.Proofs.FileName.Entry
import FileNaming.Proofs.FileName.Host
import FileNaming.Proofs.FileName.Identity
import FileNaming.Proofs.FileName.Levels
import FileNaming.Proofs.FileName.Masked
import FileNaming.Proofs.FileName.Nesting
import FileNaming.Proofs.FileName.Printed
import FileNaming.Proofs.FileName.RoundTrip
import FileNaming.Proofs.FileName.Sameness
import FileNaming.Proofs.FileName.Secrecy
import FileNaming.Proofs.FileName.Valid
import FileNaming.Proofs.Path.Boundary
import FileNaming.Proofs.Path.Cancellation
import FileNaming.Proofs.Path.Child
import FileNaming.Proofs.Path.Composition
import FileNaming.Proofs.Path.Confinement
import FileNaming.Proofs.Path.Escape
import FileNaming.Proofs.Path.NormalForm
import FileNaming.Proofs.Path.Normality
import FileNaming.Proofs.Path.Order
import FileNaming.Proofs.Path.Relative
import FileNaming.Proofs.Path.Separators
import FileNaming.Proofs.Path.Shortest
import FileNaming.Proofs.Path.Spelling
import FileNaming.Proofs.Path.Walk
import FileNaming.Proofs.Settings.Distinct
import FileNaming.Proofs.Settings.Effective
import FileNaming.Proofs.Settings.KeyPath
import FileNaming.Proofs.Settings.Lawful
import FileNaming.Proofs.Settings.Load
import FileNaming.Proofs.Settings.Merge
import FileNaming.Proofs.Settings.Overlay
import FileNaming.Proofs.Settings.Reading
import FileNaming.Proofs.Settings.Standard
import FileNaming.Proofs.Text.Case
import FileNaming.Proofs.Text.Numeral
import FileNaming.Proofs.Text.Pieces
import FileNaming.Proofs.Toml.Distinct
import FileNaming.Proofs.Uri.Authority
import FileNaming.Proofs.Uri.Grammar
import FileNaming.Proofs.Uri.Mask
import FileNaming.Proofs.Uri.Password
import FileNaming.Proofs.Uri.Scheme
import FileNaming.Settings.Basic
import FileNaming.Settings.Conversion
import FileNaming.Settings.Environment
import FileNaming.Settings.KeyPath
import FileNaming.Settings.Layer
import FileNaming.Settings.Standard
import FileNaming.Settings.Value
import FileNaming.Text.Blank
import FileNaming.Text.Cut
import FileNaming.Text.Extender
import FileNaming.Text.Literal
import FileNaming.Text.Numeral
import FileNaming.Text.Segments
import FileNaming.Text.Unprintable
import FileNaming.Toml.Document
import FileNaming.Toml.Item
import FileNaming.Toml.Moment
import FileNaming.Toml.Node
import FileNaming.Toml.Numeral
import FileNaming.Toml.Quoted
import FileNaming.Toml.Section
import FileNaming.Toml.Token
import FileNaming.Uri.Authority
import FileNaming.Uri.Mask
import FileNaming.Uri.Scheme
